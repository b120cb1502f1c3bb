import LetWhile.Source
import Mathlib.Data.List.TakeWhile

/-!
# The layout of a text

A scanned text is laid out as tokens with trivia between them: white space, and comments that run to
the end of their line. `Token.Layout` says so of a text that begins at some offset, where each token
is the lexeme at the front of what is left, and `Token.layout_of_scanFrom` says it of every text
that is scanned.
-/

namespace LetWhile

/-! ## Trivia -/

namespace Text

/-- A line ends at the front of a text: with its line feed or with the text. -/
def LineEnds (cs : List Char) : Prop := ∀ c ∈ cs.head?, c = '\n'

/-- A text of white space and comments. A comment runs to the end of the line, which may lie in the
text `after` that follows. -/
inductive Trivia (after : List Char) : List Char → Prop
  | nil : Trivia after []
  | blank {c : Char} {cs : List Char} : isBlank c = true → Trivia after cs → Trivia after (c :: cs)
  | comment {body cs : List Char} : (∀ c ∈ body, c ≠ '\n') → LineEnds (cs ++ after) →
    Trivia after cs → Trivia after ('/' :: '/' :: (body ++ cs))

variable {after : List Char}

/-- Trivia in front of trivia are trivia. -/
theorem Trivia.append {cs ds : List Char} (h : Trivia (ds ++ after) cs) (h' : Trivia after ds) :
    Trivia after (cs ++ ds) := by
  induction h with
  | nil => exact h'
  | blank hc _ ih => exact .blank hc ih
  | comment hbody hends _ ih =>
    rw [List.cons_append, List.cons_append, List.append_assoc]
    exact .comment hbody (by rwa [List.append_assoc]) ih

/-- White space is trivia. -/
theorem Trivia.of_blanks {cs : List Char} (h : ∀ c ∈ cs, isBlank c = true) : Trivia after cs := by
  induction cs with
  | nil => exact .nil
  | cons c cs ih => exact .blank (h c (.head _)) (ih fun d hd => h d (.tail _ hd))

/-- A comment is trivia where its line ends. -/
theorem Trivia.of_comment {body : List Char} (h : ∀ c ∈ body, c ≠ '\n') (hends : LineEnds after) :
    Trivia after ('/' :: '/' :: body) := by
  rw [← body.append_nil]
  exact .comment h hends .nil

end Text

/-! ## What is passed over -/

namespace Lexeme

/-- A run is what is taken while the class holds. -/
theorem take_run (p : Char → Bool) (cs : List Char) : cs.take (run p cs) = cs.takeWhile p :=
  (List.prefix_iff_eq_take.1 (List.takeWhile_prefix p)).symm

/-- Behind a run is what is left when the class no longer holds. -/
theorem drop_run (p : Char → Bool) (cs : List Char) : cs.drop (run p cs) = cs.dropWhile p := by
  have h : cs.takeWhile p ++ cs.drop (run p cs) = cs.takeWhile p ++ cs.dropWhile p := by
    rw [← take_run, List.take_append_drop, take_run, List.takeWhile_append_dropWhile]
  exact List.append_cancel_left h

/-- A comment is all of its line. -/
theorem comment_trivia (cs : List Char) :
    Text.Trivia (cs.drop (comment cs)) (cs.take (comment cs)) := by
  unfold comment
  split
  · rename_i cs
    rw [Nat.add_comm, List.take_succ_cons, List.take_succ_cons, List.drop_succ_cons,
      List.drop_succ_cons, take_run, drop_run]
    refine .of_comment (fun c hc => ?_) fun c hc => ?_
    · simpa using List.mem_takeWhile_imp hc
    · have := List.head?_dropWhile_not (· != '\n') cs
      rw [Option.mem_def.1 hc] at this
      simpa using this
  · exact .nil

end Lexeme

/-- What the first rule that applies makes of a text is what one of the rules makes of it. -/
theorem Rule.of_first? {cs : List Char} {rules : List Rule} {lexeme : Lexeme}
    (h : first? cs rules = some lexeme) :
    ∃ rule ∈ rules, lexeme.kind? = rule.kind? ∧ lexeme.length = rule.take cs := by
  induction rules with
  | nil => cases h
  | cons rule rules ih =>
    unfold first? at h
    split at h
    · cases h
      exact ⟨rule, .head _, rfl, rfl⟩
    · obtain ⟨other, hother, hrule⟩ := ih h
      exact ⟨other, .tail _ hother, hrule⟩

/-- Only the rules for white space and for comments make no token. -/
theorem Rule.of_kind?_eq_none {rule : Rule} (h : rule ∈ all) (hk : rule.kind? = none) :
    rule = ⟨none, Lexeme.run Text.isBlank⟩ ∨ rule = ⟨none, Lexeme.comment⟩ := by
  rcases List.mem_cons.1 h with rfl | h
  · exact .inl rfl
  rcases List.mem_cons.1 h with rfl | h
  · exact .inr rfl
  have hsome : (all.drop 2).all (·.kind?.isSome) = true := rfl
  have := List.all_eq_true.1 hsome rule h
  rw [hk] at this
  cases this

/-- A lexeme that makes no token is trivia. -/
theorem Lexeme.trivia {cs : List Char} {lexeme : Lexeme} (h : lexeme? cs = some lexeme)
    (hk : lexeme.kind? = none) : Text.Trivia (cs.drop lexeme.length) (cs.take lexeme.length) := by
  obtain ⟨rule, hrule, hkind, hlength⟩ := Rule.of_first? h
  rw [hlength]
  rcases Rule.of_kind?_eq_none hrule (hkind.symm.trans hk) with rfl | rfl
  · show Text.Trivia _ (cs.take (run Text.isBlank cs))
    rw [take_run]
    exact .of_blanks fun c hc => List.mem_takeWhile_imp hc
  · exact comment_trivia cs

/-! ## Layout -/

/-- A text that begins at an offset is laid out as tokens: trivia, then the lexeme at the front of
what follows, and so on, with trivia at the end. -/
inductive Token.Layout : Nat → List Char → List (Token Nat) → Prop
  | done {offset : Nat} {gap : List Char} : Text.Trivia [] gap → Layout offset gap []
  | token {offset start stop : Nat} {gap cs : List Char} {lexeme : Lexeme} {kind : Kind}
      {tokens : List (Token Nat)} :
    Text.Trivia cs gap → lexeme? cs = some lexeme → lexeme.kind? = some kind →
    start = offset + Text.utf8Size gap → stop = start + Text.utf8Size (cs.take lexeme.length) →
    Layout stop (cs.drop lexeme.length) tokens →
    Layout offset (gap ++ cs)
      (⟨kind, String.ofList (cs.take lexeme.length), ⟨start, stop⟩⟩ :: tokens)

namespace Token

/-- Trivia in front of a text belongs to its first gap. -/
theorem Layout.pass {offset : Nat} {piece cs : List Char} {tokens : List (Token Nat)}
    (hpiece : Text.Trivia cs piece) (h : Layout (offset + Text.utf8Size piece) cs tokens) :
    Layout offset (piece ++ cs) tokens := by
  cases h with
  | done hgap =>
    rw [← cs.append_nil] at hpiece
    exact .done (hpiece.append hgap)
  | token hgap hl hk hstart hstop hrest =>
    rw [← List.append_assoc]
    refine .token (hpiece.append hgap) hl hk ?_ hstop hrest
    rw [hstart, Text.utf8Size_append, Nat.add_assoc]

/-- A text that is scanned is laid out as the tokens found. -/
theorem layout_of_scanFrom (offset : Nat) (cs : List Char) :
    ∀ tokens, scanFrom offset cs = .ok tokens → Layout offset cs tokens := by
  fun_induction scanFrom offset cs with
  | case1 offset =>
    rintro _ ⟨⟩
    exact .done .nil
  | case2 => rintro _ ⟨⟩
  | case3 => rintro _ ⟨⟩
  | case4 offset c rest lexeme hl text stop found hfound hk ih =>
    rintro _ ⟨⟩
    rw [← List.take_append_drop lexeme.length (c :: rest)]
    exact .pass (Lexeme.trivia hl hk) (ih _ hfound)
  | case5 offset c rest lexeme hl text stop found hfound kind hk ih =>
    rintro _ ⟨⟩
    exact .token .nil hl hk rfl rfl (ih _ hfound)

end Token

/-- The tokens of a source are those of its text, placed in its file. -/
theorem Source.tokens_eq_ok {source : Source} {tokens : List (Token Position)}
    (h : source.tokens = .ok tokens) : ∃ found, Token.scan source.text.toList = .ok found ∧
      tokens = found.map (Token.map source.place) := by
  rw [Source.tokens] at h
  cases hscan : Token.scan source.text.toList with
  | error fault =>
    rw [hscan] at h
    cases h
  | ok found =>
    rw [hscan] at h
    cases h
    exact ⟨found, rfl, rfl⟩

end LetWhile
