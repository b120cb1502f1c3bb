import LetWhile.Proofs.Scanning.Layout
import LetWhile.Proofs.Tree.Slices
import LetWhile.Proofs.Tree.Tokens

/-!
# Fixed spellings

Punctuation, brackets and reserved words are each written in one way only. A token that the scanner
finds is written as its kind says (`Token.Spelled`), and so are the tokens in the trees of a source
(`Source.region_spelled`).
-/

namespace LetWhile

/-- The only way to write a token of a kind, if there is only one. -/
def Kind.spelling? : Kind → Option String
  | semicolon => some ";"
  | colon => some ":"
  | comma => some ","
  | arrow => some "->"
  | lambdaArrow => some "=>"
  | closing bracket => some bracket.closing
  | opening bracket => some bracket.opening
  | keyword word => some word.text
  | boolean | string | number | operator | typeName | identifier => none

/-- A token is written as its kind says. -/
def Token.Spelled {P : Type} (token : Token P) : Prop :=
  ∀ text ∈ token.kind.spelling?, token.text = text

/-! ## Rules -/

namespace Lexeme

/-- A fixed text that was found is what was taken. -/
theorem take_exactly {text : String} {cs : List Char} (h : 0 < exactly text cs) :
    cs.take (exactly text cs) = text.toList := by
  unfold exactly at h ⊢
  split at h
  · rename_i hprefix
    rw [if_pos hprefix, ← String.length_toList]
    exact (List.prefix_iff_eq_take.1 (List.isPrefixOf_iff_prefix.1 hprefix)).symm
  · exact absurd h (Nat.lt_irrefl 0)

/-- A reserved word that was found is what was taken. -/
theorem take_word {text : String} {cs : List Char} (h : 0 < word text cs) :
    cs.take (word text cs) = text.toList := by
  unfold word at h ⊢
  split at h
  · rename_i hends
    rw [if_pos hends]
    exact take_exactly h
  · exact absurd h (Nat.lt_irrefl 0)

end Lexeme

/-- A rule whose tokens are all written in one way takes that text. -/
theorem Rule.take_of_spelling? : ∀ rule ∈ all, ∀ kind ∈ rule.kind?, ∀ text ∈ kind.spelling?,
    rule.take = Lexeme.exactly text ∨ rule.take = Lexeme.word text := by
  intro rule hrule
  simp only [all, keyword, punctuation, List.mem_cons, List.not_mem_nil, or_false] at hrule
  rcases hrule with rfl | rfl | rfl | rfl | rfl | rfl | rfl | rfl | rfl | rfl | rfl | rfl | rfl |
      rfl | rfl | rfl | rfl | rfl | rfl | rfl | rfl | rfl | rfl <;>
    rintro kind ⟨⟩ text ⟨⟩ <;> first | exact .inl rfl | exact .inr rfl

/-- The text of a lexeme is that of its kind. -/
theorem Lexeme.take_eq {cs : List Char} {lexeme : Lexeme} {kind : Kind} {text : String}
    (h : lexeme? cs = some lexeme) (hk : lexeme.kind? = some kind)
    (htext : kind.spelling? = some text) : cs.take lexeme.length = text.toList := by
  obtain ⟨rule, hrule, hkind, hlength⟩ := Rule.of_first? h
  have hpos := lexeme.length_pos
  rw [hlength] at hpos ⊢
  rcases Rule.take_of_spelling? rule hrule kind (hkind.symm.trans hk) text htext with ht | ht
  · rw [ht] at hpos ⊢
    exact take_exactly hpos
  · rw [ht] at hpos ⊢
    exact take_word hpos

/-! ## Tokens and trees of a source -/

/-- Each token of a text that is laid out is spelled as its kind says. -/
theorem Token.Layout.spelled {offset : Nat} {cs : List Char} {tokens : List (Token Nat)}
    (h : Layout offset cs tokens) : ∀ token ∈ tokens, token.Spelled := by
  induction h with
  | done => exact List.forall_mem_nil _
  | token _ hl hk _ _ _ ih =>
    refine List.forall_mem_cons.2 ⟨fun text htext => ?_, ih⟩
    rw [Lexeme.take_eq hl hk htext, String.ofList_toList]

/-- The tokens of a source are written as their kinds say. -/
theorem Source.tokens_spelled {source : Source} {tokens : List (Token Position)}
    (h : source.tokens = .ok tokens) : ∀ token ∈ tokens, token.Spelled := by
  obtain ⟨found, hscan, rfl⟩ := Source.tokens_eq_ok h
  refine List.forall_mem_map.2 fun token htoken => ?_
  exact (Token.layout_of_scanFrom 0 source.text.toList found hscan).spelled token htoken

namespace Tree
variable {P : Type} {trees part : List (Tree P)}

/-- Every token in some trees is written as its kind says. -/
def AllSpelled (trees : List (Tree P)) : Prop :=
  ∀ token, Mark.leaf token ∈ allMarks trees → token.Spelled

/-- Trees are well spelled if both parts are. -/
@[simp]
theorem allSpelled_append :
    AllSpelled (trees ++ part) ↔ AllSpelled trees ∧ AllSpelled part := holds_append

/-- A leaf is well spelled if its token is. -/
@[simp]
theorem allSpelled_leaf {token : Token P} : AllSpelled [leaf token] ↔ token.Spelled := holds_leaf

/-- A group is well spelled if its children are. -/
@[simp]
theorem allSpelled_group {bracket : Bracket} {children : List (Tree P)} {span : Span P} :
    AllSpelled [group bracket children span] ↔ AllSpelled children := holds_group

/-- Trees are well spelled if the first and the others are. -/
theorem allSpelled_cons {tree : Tree P} :
    AllSpelled (tree :: trees) ↔ AllSpelled [tree] ∧ AllSpelled trees := holds_cons

/-- Each of well-spelled trees is well spelled. -/
theorem AllSpelled.of_mem {tree : Tree P} (h : AllSpelled trees) (hmem : tree ∈ trees) :
    AllSpelled [tree] := Holds.of_mem h hmem

/-- A token of a kind that is written in one way only is written so. -/
theorem AllSpelled.isToken {tree : Tree P} {kind : Kind} {text : String} (h : AllSpelled trees)
    (hmem : tree ∈ trees) (hk : tree.isKind kind = true) (htext : kind.spelling? = some text) :
    tree.IsToken kind text := by
  have htree := h.of_mem hmem
  obtain ⟨found, span, rfl⟩ := isKind_eq_true_iff.1 hk
  cases allSpelled_leaf.1 htree text htext
  exact ⟨span, rfl⟩

/-- A slice of some trees: neighbours among them, or among the children of a group in them. -/
inductive Slice (part : List (Tree P)) : List (Tree P) → Prop
  | here {trees : List (Tree P)} : part <:+: trees → Slice part trees
  | inside {trees children : List (Tree P)} {bracket : Bracket} {span : Span P} :
    group bracket children span ∈ trees → Slice part children → Slice part trees

/-- A slice of a slice is a slice. -/
theorem Slice.trans {whole : List (Tree P)} (h : Slice part trees) (h' : Slice trees whole) :
    Slice part whole := by
  induction h' with
  | here hwhole =>
    cases h with
    | here hpart => exact .here (hpart.trans hwhole)
    | inside hmem hpart => exact .inside (hwhole.subset hmem) hpart
  | inside hmem _ ih => exact .inside hmem ih

/-- The children of a group are a slice of what the trees around it are a slice of. -/
theorem Slice.of_group {bracket : Bracket} {children whole : List (Tree P)} {span : Span P}
    (hmem : group bracket children span ∈ trees) (h : Slice trees whole) : Slice children whole :=
  (Slice.inside hmem (.here (List.infix_refl _))).trans h

/-- A slice is made of neighbours among the tokens that the trees are made of. -/
theorem Slice.allMarks_isInfix (h : Slice part trees) : allMarks part <:+: allMarks trees := by
  induction h with
  | here hpart =>
    obtain ⟨before, after, rfl⟩ := hpart
    exact ⟨allMarks before, allMarks after, by rw [allMarks_append, allMarks_append]⟩
  | @inside trees children bracket span hmem _ ih =>
    obtain ⟨before, after, rfl⟩ := List.append_of_mem hmem
    refine ih.trans ⟨allMarks before ++ [.opens bracket span.start],
      .closes bracket span.stop :: allMarks after, ?_⟩
    simp [allMarks_append, allMarks, marks]

/-- What holds of all tokens holds of those in a slice. -/
theorem Slice.holds {p : Token P → Prop} (h : Slice part trees) (htrees : Holds p trees) :
    Holds p part :=
  fun token htoken => htrees token (h.allMarks_isInfix.subset htoken)

/-- A slice of well-spelled trees is well spelled. -/
theorem Slice.allSpelled (h : Slice part trees) (htrees : AllSpelled trees) : AllSpelled part :=
  h.holds htrees

end Tree

/-- The tokens in the trees of a source are written as their kinds say. -/
theorem Source.region_spelled {source : Source} {limit : Nat} {origin : Position}
    {region : Region Position} (h : source.region limit origin = .ok region) :
    Tree.AllSpelled region.trees := by
  obtain ⟨tokens, htokens, hnest⟩ := Outcome.bind_eq_ok.1 h
  exact Tree.holds_of_nest hnest (Source.tokens_spelled htokens)

end LetWhile
