import LetWhile.Tree.Basic

/-!
# Trees that are tokens or groups

What the answers to the questions asked of a tree say about it: `Tree.isKind`, `Tree.isOperator`
and `Tree.token?` tell a token from everything else, and `Tree.region?` a group.
-/

namespace LetWhile

namespace Tree
variable {P : Type} {tree : Tree P}

/-- A tree is a token of the given kind, written in the given way. -/
def IsToken (kind : Kind) (text : String) (tree : Tree P) : Prop :=
  ∃ span, tree = .leaf ⟨kind, text, span⟩

/-- A tree is of a kind if it is a token of that kind with some text. -/
theorem isKind_eq_true_iff {kind : Kind} :
    tree.isKind kind = true ↔ ∃ text, tree.IsToken kind text := by
  refine ⟨fun h => ?_, ?_⟩
  · cases tree with
    | group => cases h
    | leaf token =>
      obtain ⟨other, text, span⟩ := token
      cases of_decide_eq_true h
      exact ⟨text, span, rfl⟩
  · rintro ⟨text, span, rfl⟩
    exact decide_eq_true rfl

/-- A tree is an operator with a symbol if it is an operator token with that text. -/
theorem isOperator_eq_true_iff {symbol : String} :
    tree.isOperator symbol = true ↔ tree.IsToken .operator symbol := by
  refine ⟨fun h => ?_, ?_⟩
  · cases tree with
    | group => cases h
    | leaf token =>
      obtain ⟨kind, text, span⟩ := token
      simp only [isOperator, Bool.and_eq_true, decide_eq_true_eq, beq_iff_eq] at h
      obtain ⟨rfl, rfl⟩ := h
      exact ⟨span, rfl⟩
  · rintro ⟨span, rfl⟩
    simp [isOperator]

/-- The token of a kind in a tree is the one that the tree is a leaf of. -/
theorem token?_eq_some_iff {kind : Kind} {token : Token P} :
    tree.token? kind = some token ↔ tree = .leaf token ∧ token.kind = kind := by
  cases tree with
  | group => simp [token?]
  | leaf other =>
    simp only [token?, Option.ite_none_right_eq_some, Option.some.injEq, Tree.leaf.injEq]
    refine ⟨?_, ?_⟩
    · intro h
      obtain ⟨hk, rfl⟩ := h
      exact ⟨rfl, hk⟩
    · intro h
      obtain ⟨rfl, hk⟩ := h
      exact ⟨hk, rfl⟩

/-- A tree that has a token of a kind is that token. -/
theorem IsToken.of_token? {kind : Kind} {token : Token P} (h : tree.token? kind = some token) :
    tree.IsToken kind token.text := by
  obtain ⟨rfl, rfl⟩ := token?_eq_some_iff.1 h
  exact ⟨_, rfl⟩

/-- The region of a tree is that of the group that the tree is. -/
theorem region?_eq_some_iff {bracket : Bracket} {region : Region P} :
    tree.region? bracket = some region ↔ tree = .group bracket region.trees region.span := by
  cases tree with
  | leaf => simp [Tree.region?]
  | group other children span =>
    simp only [Tree.region?, Option.ite_none_right_eq_some, Option.some.injEq, Tree.group.injEq]
    refine ⟨?_, ?_⟩
    · intro h
      obtain ⟨rfl, rfl⟩ := h
      exact ⟨rfl, rfl, rfl⟩
    · intro h
      obtain ⟨rfl, rfl, rfl⟩ := h
      exact ⟨rfl, rfl⟩

end Tree

end LetWhile
