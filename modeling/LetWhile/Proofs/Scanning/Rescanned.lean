import LetWhile.Proofs.Printing.ReadBack
import LetWhile.Proofs.Relocation.Anchors
import LetWhile.Proofs.Scanning.Settled

/-!
# Scanning the texts of tokens

The texts of the tokens of a source are scanned as the same tokens again, with any white space
between them (`Text.Spaced`), and also as faults quote them, where brackets have none inside
(`Tree.render`). This is `Source.tokens_rescanned`. It rests on each token being the one that its
text makes wherever it ends (`Kind.Owns`): white space and brackets end every token.
-/

namespace LetWhile

variable {P : Type}

open Text (isBlank)

/-! ## Texts with white space between them -/

/-- Some texts in order, with white space between neighbours. -/
inductive Text.Spaced : List String → String → Prop
  | nil : Spaced [] ""
  | one (text : String) : Spaced [text] text
  | more {text gap rest : String} {texts : List String} :
    gap ≠ "" → (∀ c ∈ gap.toList, isBlank c = true) → texts ≠ [] → Spaced texts rest →
    Spaced (text :: texts) (text ++ gap ++ rest)

/-- White space is a boundary, if there is any. -/
theorem Bounds.of_blanks {gap : List Char} (hne : gap ≠ []) (h : ∀ c ∈ gap, isBlank c = true) :
    Bounds gap := by
  obtain ⟨c, gap, rfl⟩ := List.exists_cons_of_ne_nil hne
  have hc : isBlank c = true := h c (.head _)
  refine .of_cons ⟨Text.isWordChar_of_isBlank hc, Bool.eq_false_iff.2 fun hop => ?_⟩
  exact absurd (hc.symm.trans (Lexeme.isBlank_of_isOperatorChar hop).1) Bool.noConfusion

/-- Tokens with white space between them are scanned as they are. -/
theorem Text.Spaced.writes {tokens : List (Token P)} {texts : List String} {text : String}
    (h : Spaced texts text) (htexts : texts = tokens.map Token.text)
    (howned : ∀ token ∈ tokens, token.kind.Owns token.text) :
    Writes text.toList (tokens.map (Token.map nowhere)) := by
  induction h generalizing tokens with
  | nil =>
    rw [List.map_eq_nil_iff.1 htexts.symm]
    exact Opens.nil.writes
  | one text =>
    obtain ⟨token, rfl, rfl⟩ := List.map_eq_singleton_iff.1 htexts.symm
    exact (howned token (.head _)).writes
  | @more text gap rest texts hne hgap _ _ ih =>
    obtain ⟨token, tokens, rfl, rfl, htokens⟩ := List.map_eq_cons_iff.1 htexts.symm
    obtain ⟨htoken, hrest⟩ := List.forall_mem_cons.1 howned
    have hbounds : Bounds gap.toList := .of_blanks (by simpa using hne) hgap
    rw [String.toList_append, String.toList_append]
    exact (htoken.writes.append (.blanks hgap) hbounds).append_writes (ih htokens.symm hrest)

/-! ## Trees as faults quote them -/

/-- The token that a mark is of, without its place. -/
def Mark.token : Mark P → Token Unit
  | .leaf token => token.map nowhere
  | .opens bracket _ => .placeless (.opening bracket) bracket.opening
  | .closes bracket _ => .placeless (.closing bracket) bracket.closing

/-- A spelled token is the one that its mark stands for. -/
theorem Token.token_mark {token : Token P} (h : token.Spelled) :
    token.mark.token = token.map nowhere := by
  obtain ⟨kind, text, span⟩ := token
  cases kind with
  | opening bracket | closing bracket =>
    cases h _ rfl
    rfl
  | _ => rfl

namespace Tree

mutual

/-- The text of a tree is scanned as its tokens, if each token has a text of its kind. -/
theorem writes_text : ∀ {tree : Tree P}, Holds (fun token => token.kind.Owns token.text) [tree] →
    Writes tree.text.toList (tree.marks.map Mark.token)
  | leaf token, h => by
    simp only [text, marks, List.map_cons, List.map_nil]
    exact (holds_leaf.1 h).writes
  | group bracket children span, h => by
    have := writes_render (holds_group.1 h)
    simp only [text, marks, List.map_cons, List.map_append, List.map_nil, String.toList_append]
    exact (Opens.within bracket this).writes

/-- Trees as faults quote them are scanned as their tokens. -/
theorem writes_render : ∀ {trees : List (Tree P)},
    Holds (fun token => token.kind.Owns token.text) trees →
      Writes (render trees).toList ((allMarks trees).map Mark.token)
  | [], _ => Opens.nil.writes
  | [tree], h => by
    have := writes_text h
    simpa [render, texts, allMarks] using this
  | tree :: next :: rest, h => by
    obtain ⟨htree, hrest⟩ := holds_cons.1 h
    have hspaced := (writes_text htree).append .blank (.of_cons (by decide))
    have := hspaced.append_writes (writes_render hrest)
    simp only [render, texts, String.intercalate_cons_cons, allMarks] at this ⊢
    simpa [String.toList_append] using this

end

end Tree

/-! ## Sources -/

/-- A text is a token of one kind. -/
theorem Kind.Owns.unique {kind other : Kind} {text : String} (h : kind.Owns text)
    (h' : other.Owns text) : kind = other := by
  have := (h.lexeme [] nofun).symm.trans (h'.lexeme [] nofun)
  injection this with this
  exact Option.some.inj (congrArg Lexeme.kind? this)

/-- The text of an operator does not begin like a comment or an arrow. -/
theorem Kind.Owns.not_begins {text : String} (h : Kind.operator.Owns text) :
    ∀ mark ∈ operatorMarks, ¬ mark <+: text.toList := by
  intro mark hmark hprefix
  refine Lexeme.not_begins_of_operator (h.lexeme [] nofun) rfl mark hmark ?_
  show mark <+: (text.toList ++ []).take text.length
  rwa [List.append_nil, ← String.length_toList, List.take_length]

/-- Tokens that differ in their places only have the same kinds and texts. -/
theorem Token.map_spelling_of_nowhere {Q : Type} {tokens : List (Token P)} {found : List (Token Q)}
    (h : found.map (Token.map nowhere) = tokens.map (Token.map nowhere)) :
    found.map Token.spelling = tokens.map Token.spelling := by
  have := congrArg (List.map Token.spelling) h
  rwa [List.map_map, List.map_map] at this

/-- Tokens that differ in their places only are nested alike. -/
theorem nest_of_nowhere {Q : Type} {limit : Nat} {origin : P} {tokens : List (Token P)}
    {found : List (Token Q)} {region : Region P} (hnest : nest limit origin tokens = .ok region)
    (h : found.map (Token.map nowhere) = tokens.map (Token.map nowhere)) (other : Q) :
    ∃ again, nest limit other found = .ok again ∧ again.map nowhere = region.map nowhere := by
  have hplaceless := nest_relocate nowhere limit origin tokens
  rw [hnest, ← h] at hplaceless
  have hfound := nest_relocate nowhere limit other found
  rw [show nowhere other = nowhere origin from rfl, ← hplaceless] at hfound
  cases hagain : nest limit other found with
  | error fault =>
    rw [hagain] at hfound
    cases hfound
  | ok again =>
    rw [hagain] at hfound
    exact ⟨again, rfl, Except.ok.inj hfound⟩

/-- The tokens of a source are scanned again from their texts. No name among them is a reserved
word, and no operator begins with a comment or an arrow. With white space between neighbours they
are found again in every file, and if they are nested, they are found again in the trees as faults
quote them, and are nested to the same trees but for their places. -/
theorem Source.tokens_rescanned {source : Source} {tokens : List (Token Position)}
    (h : source.tokens = .ok tokens) :
    (∀ token ∈ tokens, token.kind = .identifier → ∀ word ∈ reservedWords, token.text ≠ word.2) ∧
    (∀ token ∈ tokens, token.kind = .operator →
      ∀ mark ∈ operatorMarks, ¬ mark <+: token.text.toList) ∧
    (∀ text, Text.Spaced (tokens.map Token.text) text → ∀ file, ∃ found,
      (Source.mk text file).tokens = .ok found ∧
        found.map Token.spelling = tokens.map Token.spelling) ∧
    (∀ limit origin region, nest limit origin tokens = .ok region → ∀ file, ∃ found,
      (Source.mk (Tree.render region.trees) file).tokens = .ok found ∧
        found.map Token.spelling = tokens.map Token.spelling ∧
        ∀ other, ∃ again, nest limit other found = .ok again ∧
          again.map nowhere = region.map nowhere) := by
  have howned := tokens_owned h
  have hspelled := tokens_spelled h
  refine ⟨fun token htoken hk word hword heq => ?_, fun token htoken hk => ?_,
    fun text htext file => ?_, fun limit origin region hnest file => ?_⟩
  · have hreserved : word.1.Owns token.text := heq ▸ Kind.Owns.reserved hword
    have hne : ∀ word ∈ reservedWords, word.1 ≠ .identifier := by decide
    exact hne word hword (hreserved.unique (hk ▸ howned token htoken))
  · exact (hk ▸ howned token htoken : Kind.operator.Owns token.text).not_begins
  · obtain ⟨found, hfound, hmap⟩ : ∃ found, (Source.mk text file).tokens = .ok found ∧
        found.map (Token.map nowhere) = tokens.map (Token.map nowhere) :=
      tokens_of_scans (htext.writes rfl howned).scans
    exact ⟨found, hfound, Token.map_spelling_of_nowhere hmap⟩
  · have hmarks : (Tree.allMarks region.trees).map Mark.token = tokens.map (Token.map nowhere) := by
      rw [(nestsTo_of_nest hnest).marks, List.map_map]
      exact List.map_congr_left fun token htoken => Token.token_mark (hspelled token htoken)
    have hwrites := Tree.writes_render (Tree.holds_of_nest hnest howned)
    rw [hmarks] at hwrites
    obtain ⟨found, hfound, hmap⟩ : ∃ found,
        (Source.mk (Tree.render region.trees) file).tokens = .ok found ∧
          found.map (Token.map nowhere) = tokens.map (Token.map nowhere) :=
      tokens_of_scans hwrites.scans
    exact ⟨found, hfound, Token.map_spelling_of_nowhere hmap, nest_of_nowhere hnest hmap⟩

/-- A negative number in brackets, written without spaces. -/
theorem Source.tokens_rescanned_negated :
    let source : Source := ⟨"iff=(-1)", "demo.let"⟩
    let place := source.place
    let tokens : List (Token Position) :=
      [⟨.identifier, "iff", ⟨place 0, place 3⟩⟩, ⟨.operator, "=", ⟨place 3, place 4⟩⟩,
        ⟨.opening .paren, "(", ⟨place 4, place 5⟩⟩, ⟨.operator, "-", ⟨place 5, place 6⟩⟩,
        ⟨.number, "1", ⟨place 6, place 7⟩⟩, ⟨.closing .paren, ")", ⟨place 7, place 8⟩⟩]
    source.tokens = .ok tokens ∧
      ∃ found, (Source.mk "iff = (- 1)" "demo.let").tokens = .ok found ∧
        found.map Token.spelling = tokens.map Token.spelling := by
  intro source place tokens
  have htokens : source.tokens = .ok tokens := by decide +kernel
  have hnest : ∃ region, nest 1 (place 0) tokens = .ok region ∧
      Tree.render region.trees = "iff = (- 1)" := ⟨_, rfl, by decide +kernel⟩
  obtain ⟨region, hregion, hrender⟩ := hnest
  obtain ⟨-, -, -, hrendered⟩ := Source.tokens_rescanned htokens
  obtain ⟨found, hfound, hspelling, -⟩ := hrendered 1 (place 0) region hregion "demo.let"
  exact ⟨htokens, found, hrender ▸ hfound, hspelling⟩

end LetWhile
