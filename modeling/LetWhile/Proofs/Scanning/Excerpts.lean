import LetWhile.Proofs.Scanning.Joined
import LetWhile.Proofs.Scanning.Settled

/-!
# Excerpts of scanned texts

The part of a text from the start of one of its tokens to the stop of another is scanned as the
tokens from the one to the other, wherever it is put, as long as a boundary follows
(`Token.Portable`, `Token.scan_excerpt`). So an excerpt of a source has the tokens of the source,
also with parentheses put around it (`Source.tokens_excerpt`).
-/

namespace LetWhile

open Text (isBlank utf8Size Trivia LineEnds Stands)

/-! ## Trivia -/

/-- Of what follows trivia only the first character matters. -/
theorem Text.Trivia.congr {after other gap : List Char} (h : Trivia after gap)
    (hhead : other.head? = after.head?) : Trivia other gap := by
  induction h with
  | nil => exact .nil
  | blank hc _ ih => exact .blank hc ih
  | comment hbody hends _ ih =>
    refine .comment hbody ?_ ih
    unfold LineEnds at hends ⊢
    rwa [List.head?_append, hhead, ← List.head?_append]

/-- A comment that ends with its line is one lexeme. -/
theorem lexeme?_comment {body rest : List Char} (hbody : ∀ c ∈ body, c ≠ '\n')
    (hends : LineEnds rest) : lexeme? ('/' :: '/' :: body ++ rest) =
      some ⟨none, ('/' :: '/' :: body).length, Nat.succ_pos _⟩ := by
  have hrun : Lexeme.run (· != '\n') (body ++ rest) = body.length :=
    Lexeme.run_append (fun c hc => bne_iff_ne.2 (hbody c hc)) fun c hc => by
      rw [hends c hc]
      rfl
  have htake : Lexeme.comment ('/' :: '/' :: body ++ rest) = ('/' :: '/' :: body).length := by
    show 2 + Lexeme.run (· != '\n') (body ++ rest) = body.length + 2
    rw [hrun, Nat.add_comm]
  have hblanks : ∀ rule ∈ [(⟨none, Lexeme.run isBlank⟩ : Rule)],
      rule.take ('/' :: '/' :: body ++ rest) = 0 :=
    List.forall_mem_singleton.2 (Lexeme.run_cons_of_not (by decide) _)
  exact Rule.first?_append hblanks htake (Nat.succ_pos _)

namespace Token

/-- Trivia in front of a text is passed over. -/
theorem scanFrom_trivia {after gap : List Char} (h : Trivia after gap) (offset : Nat) :
    scanFrom offset (gap ++ after) = scanFrom (offset + utf8Size gap) after := by
  induction h generalizing offset with
  | nil => rfl
  | @blank c cs hc _ ih =>
    have hpass := scanFrom_blanks (List.forall_mem_singleton.2 hc) offset (cs ++ after)
    rw [List.singleton_append] at hpass
    rw [List.cons_append, hpass, ih, Nat.add_assoc, ← Text.utf8Size_append, List.singleton_append]
  | @comment body cs hbody hends _ ih =>
    have hsplit : '/' :: '/' :: (body ++ cs) ++ after = '/' :: '/' :: body ++ (cs ++ after) := by
      simp
    rw [hsplit, scanFrom_skip (lexeme?_comment hbody hends) rfl, List.take_left, List.drop_left, ih,
      Nat.add_assoc, ← Text.utf8Size_append]
    rfl

/-! ## Portable texts -/

/-- No tokens in front change nothing. -/
theorem map_nil_append (outcome : Outcome Nat (List (Token Nat))) :
    outcome.map ([] ++ ·) = outcome := by
  cases outcome <;> rfl

/-- Tokens that are put in front one after another are put in front at once. -/
theorem map_append (outcome : Outcome Nat (List (Token Nat))) (tokens more : List (Token Nat)) :
    (outcome.map (more ++ ·)).map (tokens ++ ·) = outcome.map (tokens ++ more ++ ·) := by
  cases outcome with
  | error => rfl
  | ok found => exact congrArg Except.ok (List.append_assoc tokens more found).symm

/-- Tokens that are moved twice are moved by both distances at once. -/
theorem map_add_add (tokens : List (Token Nat)) (j k : Nat) :
    (tokens.map (Token.map (· + j))).map (Token.map (· + k)) =
      tokens.map (Token.map (· + (k + j))) := by
  rw [List.map_map]
  refine List.map_congr_left fun token _ => ?_
  simp only [Function.comp, Token.map, Span.map, Nat.add_assoc, Nat.add_comm k]

/-- A text is scanned as the given tokens wherever it is put, as long as a boundary follows. The
tokens stand where they do when the text is scanned on its own. -/
def Portable (cs : List Char) (tokens : List (Token Nat)) : Prop :=
  ∀ offset rest, Boundary rest →
    scanFrom offset (cs ++ rest) =
      (scanFrom (offset + utf8Size cs) rest).map (tokens.map (Token.map (· + offset)) ++ ·)

namespace Portable
variable {cs gap : List Char} {tokens : List (Token Nat)}

/-- The empty text can be moved. -/
theorem nil : Portable [] [] := fun _ _ _ => (map_nil_append _).symm

/-- Trivia in front of a text moves its tokens. -/
theorem pass (h : Portable cs tokens) (hne : cs ≠ []) (hgap : Trivia cs gap) :
    Portable (gap ++ cs) (tokens.map (Token.map (· + utf8Size gap))) := by
  intro offset rest hrest
  have hpass : Trivia (cs ++ rest) gap := hgap.congr (List.head?_append_of_ne_nil cs hne)
  rw [List.append_assoc, scanFrom_trivia hpass, h _ rest hrest, map_add_add, Text.utf8Size_append,
    Nat.add_assoc]

/-- The text of a token in front of others, if the token ends there, is one token more. -/
theorem cons {kind : Kind} {text : String} (hown : kind.Owns text)
    (hends : ∀ rest, Boundary rest → kind.EndsBefore (cs ++ rest)) (h : Portable cs tokens) :
    Portable (text.toList ++ cs) (⟨kind, text, ⟨0, utf8Size text.toList⟩⟩ ::
      tokens.map (Token.map (· + utf8Size text.toList))) := by
  intro offset rest hrest
  have hl := hown.lexeme (cs ++ rest) (hends rest hrest)
  rw [List.append_assoc, scanFrom_token hl rfl]
  simp only [← String.length_toList, List.take_left, List.drop_left, String.ofList_toList]
  rw [h _ rest hrest, List.map_cons, map_add_add, Text.utf8Size_append, Nat.add_assoc]
  cases scanFrom _ rest with
  | error => rfl
  | ok found => simp [Except.map, Token.map, Span.map, Nat.add_comm]

end Portable

/-! ## Excerpts -/

/-- The tokens at the front of a laid out text are those of a part of it behind the first gap. -/
theorem Layout.excerpt : ∀ {core after : List (Token Nat)} {offset : Nat} {cs : List Char},
    Layout offset cs (core ++ after) → core ≠ [] → ∃ gap body rest tokens,
      cs = gap ++ (body ++ rest) ∧ Trivia (body ++ rest) gap ∧ body ≠ [] ∧ Portable body tokens ∧
        core = tokens.map (Token.map (· + (offset + utf8Size gap))) ∧
        (∀ first ∈ core.head?, first.span.start = offset + utf8Size gap) ∧
        ∀ last ∈ core.getLast?, last.span.stop = offset + utf8Size gap + utf8Size body
  | [], _, _, _, _, hne => absurd rfl hne
  | head :: core, after, offset, _, h, _ => by
    cases h with
    | @token _ start stop gap cs lexeme kind _ hgap hl hk hstart hstop hrest =>
      subst hstart
      have howned := Lexeme.owned hl hk hrest.settled
      have hends := Lexeme.endsBefore hl hk hrest.settled
      generalize htext : String.ofList (cs.take lexeme.length) = text at howned ⊢
      have htake : text.toList = cs.take lexeme.length := by rw [← htext, String.toList_ofList]
      have hne : text.toList ≠ [] :=
        List.ne_nil_of_length_pos (by rw [String.length_toList]; exact howned.length_pos)
      -- Behind the first token the excerpt ends, or the gap and the excerpt of the others follow.
      obtain ⟨tail, rest, tokens, hdrop, hbefore, htail, hcore, hlast⟩ : ∃ tail rest tokens,
          cs.drop lexeme.length = tail ++ rest ∧
            (∀ more, Boundary more → kind.EndsBefore (tail ++ more)) ∧ Portable tail tokens ∧
            core = tokens.map (Token.map (· + stop)) ∧
            ∀ last ∈ (⟨kind, text, ⟨offset + utf8Size gap, stop⟩⟩ :: core : List _).getLast?,
              last.span.stop = stop + utf8Size tail := by
        by_cases hcore : core = []
        · subst hcore
          refine ⟨[], _, [], rfl, fun _ hmore => .of_boundary hmore kind, .nil, rfl, ?_⟩
          rintro _ ⟨⟩
          rfl
        · obtain ⟨gap', body, rest, tokens, hdrop, hgap', hbody, htokens, hmap, -, hlast⟩ :=
            hrest.excerpt hcore
          have hhead : body.head? = (body ++ rest).head? :=
            (List.head?_append_of_ne_nil body hbody).symm
          have hne : gap' ++ body ≠ [] := fun hnil => hbody (List.append_eq_nil_iff.1 hnil).2
          rw [← List.append_assoc] at hdrop
          refine ⟨gap' ++ body, rest, _, hdrop, fun more _ => ?_,
            htokens.pass hbody (hgap'.congr hhead), ?_, fun last hmem => ?_⟩
          · unfold Kind.EndsBefore at hends ⊢
            rwa [List.head?_append_of_ne_nil _ hne, ← List.head?_append_of_ne_nil _ hne, ← hdrop]
          · rw [map_add_add]
            exact hmap
          · rw [List.getLast?_cons_of_ne_nil hcore] at hmem
            rw [hlast last hmem, Text.utf8Size_append, Nat.add_assoc]
      have hbody : text.toList ++ tail ≠ [] := fun hnil => hne (List.append_eq_nil_iff.1 hnil).1
      have hcs : cs = text.toList ++ tail ++ rest := by
        rw [List.append_assoc, ← hdrop, htake, List.take_append_drop]
      refine ⟨gap, text.toList ++ tail, rest, _, by rw [← hcs], hcs ▸ hgap, hbody,
        htail.cons howned hbefore, ?_, ?_, fun last hmem => ?_⟩
      · rw [List.map_cons, map_add_add, htake, ← hstop, ← hcore]
        simp only [Token.map, Span.map, Nat.zero_add, hstop, Nat.add_comm]
      · rintro _ ⟨⟩
        rfl
      · rw [hlast last hmem, Text.utf8Size_append, htake, hstop, Nat.add_assoc]

/-- Behind the first tokens of a laid out text the others are laid out. -/
theorem Layout.drop : ∀ {before tokens : List (Token Nat)} {offset : Nat} {cs : List Char},
    Layout offset cs (before ++ tokens) →
      ∃ front rest, cs = front ++ rest ∧ Layout (offset + utf8Size front) rest tokens
  | [], _, _, cs, h => ⟨[], cs, rfl, h⟩
  | _ :: before, _, offset, _, h => by
    cases h with
    | @token _ start stop gap cs lexeme kind _ _ _ _ hstart hstop hrest =>
      obtain ⟨front, rest, hdrop, hlayout⟩ := hrest.drop
      refine ⟨gap ++ cs.take lexeme.length ++ front, rest, ?_, ?_⟩
      · rw [List.append_assoc, List.append_assoc, ← hdrop, List.take_append_drop]
      · rwa [Text.utf8Size_append, Text.utf8Size_append, ← Nat.add_assoc, ← Nat.add_assoc, ← hstart,
          ← hstop]

/-- Neighbours among the tokens of a text are those of the part from the first of them to the
last. -/
theorem scan_excerpt {text : String} {before core after : List (Token Nat)}
    (h : scan text.toList = .ok (before ++ (core ++ after))) {first last : Token Nat}
    (hfirst : core.head? = some first) (hlast : core.getLast? = some last) :
    ∃ body tokens, Stands text first.span.start body last.span.stop ∧ Portable body tokens ∧
      core = tokens.map (Token.map (· + first.span.start)) := by
  obtain ⟨front, cs, htext, hlayout⟩ := (layout_of_scanFrom 0 _ _ h).drop
  have hne : core ≠ [] := by
    rintro rfl
    cases hfirst
  obtain ⟨gap, body, rest, tokens, rfl, -, -, hportable, hcore, hstart, hstop⟩ :=
    hlayout.excerpt hne
  have hstart := hstart first hfirst
  have hstop := hstop last hlast
  refine ⟨body, tokens, ⟨front ++ gap, rest, ?_, ?_, ?_⟩, hportable, ?_⟩
  · rw [htext, List.append_assoc, List.append_assoc]
  · rw [hstart, Text.utf8Size_append, Nat.zero_add]
  · rw [hstop, hstart]
  · rw [hstart]
    exact hcore

/-! ## Brackets around an excerpt -/

/-- Some tokens of one character, one directly after another. -/
def row (kind : Kind) (text : String) (start n : Nat) : List (Token Nat) :=
  (List.range' start n).map fun offset => ⟨kind, text, ⟨offset, offset + 1⟩⟩

/-- A row of punctuation marks is scanned as as many tokens. -/
theorem scanFrom_row {kind : Kind} {c : Char} (hmark : (kind, String.ofList [c]) ∈ fixedMarks)
    (hsize : c.utf8Size = 1) (n offset : Nat) (rest : List Char) :
    scanFrom offset (List.replicate n c ++ rest) =
      (scanFrom (offset + n) rest).map (row kind (String.ofList [c]) offset n ++ ·) := by
  induction n generalizing offset with
  | zero => exact (map_nil_append _).symm
  | succ n ih =>
    have hl := (Kind.Owns.mark hmark).lexeme (List.replicate n c ++ rest) fun d _ =>
      congrFun (goesOn_of_mark _ hmark) d
    have htext : (String.ofList [c]).toList = [c] := String.toList_ofList
    have hone : utf8Size [c] = 1 := by rw [Text.utf8Size_cons, hsize, Text.utf8Size_nil]
    have hrow : row kind (String.ofList [c]) offset (n + 1) =
        [⟨kind, String.ofList [c], ⟨offset, offset + 1⟩⟩] ++
          row kind (String.ofList [c]) (offset + 1) n := rfl
    rw [List.replicate_succ, List.cons_append, ← List.singleton_append, ← htext,
      scanFrom_token hl rfl]
    simp only [← String.length_toList, List.take_left, List.drop_left, String.ofList_toList]
    rw [htext, hone, ih, hrow, ← map_append, Nat.add_assoc, Nat.add_comm 1 n]
    rfl

/-- A text with parentheses around it is scanned as its tokens with parentheses around them. -/
theorem Portable.scan_parenthesised {body : List Char} {tokens : List (Token Nat)}
    (h : Portable body tokens) (opened closed : Nat) :
    scan (List.replicate opened '(' ++ (body ++ List.replicate closed ')')) =
      .ok (row (.opening .paren) "(" 0 opened ++ (tokens.map (Token.map (· + opened)) ++
        row (.closing .paren) ")" (opened + utf8Size body) closed)) := by
  have hopenMark : (Kind.opening .paren, String.ofList ['(']) ∈ fixedMarks := by decide
  have hcloseMark : (Kind.closing .paren, String.ofList [')']) ∈ fixedMarks := by decide
  have hopening := scanFrom_row hopenMark rfl opened 0 (body ++ List.replicate closed ')')
  have hclosing := scanFrom_row hcloseMark rfl closed (opened + utf8Size body) []
  have hbounds : Boundary (List.replicate closed ')') := by
    cases closed with
    | zero => trivial
    | succ => exact ⟨by decide, by decide⟩
  rw [List.append_nil, scanFrom] at hclosing
  rw [scan, hopening, Nat.zero_add, h opened _ hbounds, hclosing]
  simp only [Except.map, List.append_nil]

end Token

/-- What stands between the ends of a span in a source, with parentheses put around it. -/
def Source.excerpt (source : Source) (span : Span Position) (opened closed : Nat) : Source :=
  ⟨String.ofList (List.replicate opened '(') ++
      String.Pos.Raw.extract source.text ⟨span.start.byte⟩ ⟨span.stop.byte⟩ ++
      String.ofList (List.replicate closed ')'), source.file⟩

/-- Between the ends of two tokens of a source stand the tokens from the one to the other, which are
moved by the parentheses in front of the excerpt instead of by what precedes them in the source. -/
theorem Source.tokens_excerpt {source : Source} (hsize : source.text.utf8ByteSize < 2 ^ 32)
    {before core after : List (Token Nat)}
    (hscan : Token.scan source.text.toList = .ok (before ++ (core ++ after)))
    {first last : Token Nat} (hfirst : core.head? = some first) (hlast : core.getLast? = some last)
    (opened closed : Nat) : ∃ (size : Nat) (tokens : List (Token Nat)),
      last.span.stop = first.span.start + size ∧
      core = tokens.map (Token.map (· + first.span.start)) ∧
      (source.excerpt ⟨source.place first.span.start, source.place last.span.stop⟩
        opened closed).tokens =
          .ok ((Token.row (.opening .paren) "(" 0 opened ++ (tokens.map (Token.map (· + opened)) ++
            Token.row (.closing .paren) ")" (opened + size) closed)).map
              (Token.map source.place)) := by
  obtain ⟨body, tokens, hstands, hportable, hcore⟩ := Token.scan_excerpt hscan hfirst hlast
  obtain ⟨-, -, -, -, hstop⟩ := id hstands
  refine ⟨utf8Size body, tokens, hstop, hcore, ?_⟩
  have hstart : (source.place first.span.start).byte = first.span.start :=
    source.byte_place (Nat.lt_of_le_of_lt hstands.isValid_start.le_utf8ByteSize hsize)
  have hstop : (source.place last.span.stop).byte = last.span.stop :=
    source.byte_place (Nat.lt_of_le_of_lt hstands.isValid_stop.le_utf8ByteSize hsize)
  have hchars : (source.excerpt ⟨source.place first.span.start, source.place last.span.stop⟩
      opened closed).text.toList =
        List.replicate opened '(' ++ (body ++ List.replicate closed ')') := by
    simp only [excerpt, hstart, hstop, hstands.extract_eq, String.toList_append,
      String.toList_ofList, List.append_assoc]
  rw [Source.tokens, hchars, hportable.scan_parenthesised]
  rfl

end LetWhile
