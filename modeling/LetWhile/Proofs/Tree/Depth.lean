import LetWhile.Proofs.Tree.Matching

/-!
# The depth of trees

Trees are read from the tokens that they are made of, if the limit is not below the depth to which
groups are nested in them (`nest_of_marks`). So tokens that some trees are made of have matching
brackets (`balanced_of_marks`).
-/

namespace LetWhile

variable {P : Type}

/-! ## Depth -/

namespace Tree

mutual

/-- How deep groups are nested in a tree. -/
def depth : Tree P → Nat
  | leaf _ => 0
  | group _ children _ => maxDepth children + 1

/-- How deep groups are nested in some trees. -/
def maxDepth : List (Tree P) → Nat
  | [] => 0
  | tree :: rest => max tree.depth (maxDepth rest)

end

/-- The largest depth of two lists is the larger of both. -/
theorem maxDepth_append (trees more : List (Tree P)) :
    maxDepth (trees ++ more) = max (maxDepth trees) (maxDepth more) := by
  induction trees with
  | nil => simp [maxDepth]
  | cons tree rest ih => rw [List.cons_append, maxDepth, ih, maxDepth, Nat.max_assoc]

mutual

/-- A tree is no deeper than it has marks. -/
theorem depth_le_length_marks : ∀ tree : Tree P, tree.depth ≤ tree.marks.length
  | leaf _ => Nat.zero_le _
  | group _ children _ => by
    have hchildren := maxDepth_le_length_allMarks children
    simp only [depth, marks, List.length_cons, List.length_append]
    omega

/-- Every level of nesting takes brackets. -/
theorem maxDepth_le_length_allMarks : ∀ trees : List (Tree P),
    maxDepth trees ≤ (allMarks trees).length
  | [] => Nat.zero_le _
  | tree :: rest => by
    have htree := depth_le_length_marks tree
    have hrest := maxDepth_le_length_allMarks rest
    simp only [maxDepth, allMarks, List.length_append]
    omega

end

end Tree

/-! ## From marks to trees -/

namespace Nesting
variable {limit : Nat}

mutual

/-- Tokens that a tree is made of are read as the tree. -/
theorem nestFrom_of_tree : ∀ {tree : Tree P} {tokens : List (Token P)} {opened : List (Opened P)},
    tree.marks = tokens.map Token.mark → opened.length + tree.depth ≤ limit →
      ∀ before rest, nestFrom limit opened before (tokens ++ rest) =
        nestFrom limit opened (tree :: before) rest
  | .leaf token, tokens, opened, h, hlimit, before, rest => by
    rw [Tree.marks] at h
    obtain ⟨other, rfl, hother⟩ := List.map_eq_singleton_iff.1 h.symm
    cases Token.eq_of_mark hother
    refine nestFrom_leaf rest ?_
    rcases token.kind.bracket_cases with hleaf | ⟨bracket, hopening⟩ | ⟨bracket, hclosing⟩
    · exact hleaf
    · cases (Token.mark_of_opening hopening).symm.trans hother
    · cases (Token.mark_of_closing hclosing).symm.trans hother
  | .group bracket children ⟨start, stop⟩, tokens, opened, h, hlimit, before, rest => by
    rw [Tree.marks] at h
    obtain ⟨opening, more, rfl, hopening, hmore⟩ := List.map_eq_cons_iff.1 h.symm
    obtain ⟨inner, last, rfl, hinner, hlast⟩ := List.map_eq_append_iff.1 hmore
    obtain ⟨closing, rfl, hclosing⟩ := List.map_eq_singleton_iff.1 hlast
    obtain ⟨hopens, rfl⟩ := Token.eq_of_mark_opens hopening
    obtain ⟨hcloses, rfl⟩ := Token.eq_of_mark_closes hclosing
    have hgroup : closing.kind = .closing (Opened.mk bracket opening.span.start before).bracket :=
      hcloses
    rw [Tree.depth] at hlimit
    rw [List.cons_append, nestFrom_opening _ hopens (by omega), List.append_assoc,
      nestFrom_of_trees hinner.symm (by rw [List.length_cons]; omega), List.append_nil,
      List.singleton_append, nestFrom_closing _ hgroup, List.reverse_reverse]

/-- Tokens that some trees are made of are read as the trees, if the limit allows as many groups as
the trees are deep. -/
theorem nestFrom_of_trees : ∀ {trees : List (Tree P)} {tokens : List (Token P)}
    {opened : List (Opened P)}, Tree.allMarks trees = tokens.map Token.mark →
      opened.length + Tree.maxDepth trees ≤ limit → ∀ before rest,
        nestFrom limit opened before (tokens ++ rest) =
          nestFrom limit opened (trees.reverse ++ before) rest
  | [], tokens, opened, h, _, before, rest => by
    rw [Tree.allMarks] at h
    cases List.map_eq_nil_iff.1 h.symm
    rfl
  | tree :: trees, tokens, opened, h, hlimit, before, rest => by
    rw [Tree.allMarks] at h
    obtain ⟨first, more, rfl, hfirst, hmore⟩ := List.map_eq_append_iff.1 h.symm
    rw [Tree.maxDepth] at hlimit
    rw [List.append_assoc, nestFrom_of_tree hfirst.symm (by omega),
      nestFrom_of_trees hmore.symm (by omega), List.reverse_cons, List.append_assoc]
    rfl

end

/-- Tokens with the marks of trees nest to these trees under a limit that is not below their
depth. -/
theorem nestFrom_of_marks {trees : List (Tree P)} {tokens : List (Token P)}
    (h : Tree.allMarks trees = tokens.map Token.mark) (hlimit : Tree.maxDepth trees ≤ limit) :
    nestFrom limit [] [] tokens = .ok trees := by
  have hrun : nestFrom limit [] [] (tokens ++ []) = nestFrom limit [] (trees.reverse ++ []) [] :=
    nestFrom_of_trees h (by simpa using hlimit) [] []
  rw [List.append_nil, List.append_nil] at hrun
  rw [hrun, nestFrom, List.reverse_reverse]

end Nesting

/-- Tokens that some trees are made of are nested as the trees, if the limit is not below their
depth. -/
theorem nest_of_marks {limit : Nat} {trees : List (Tree P)} {tokens : List (Token P)}
    (h : Tree.allMarks trees = tokens.map Token.mark) (hlimit : Tree.maxDepth trees ≤ limit)
    (origin : P) : nest limit origin tokens = .ok ⟨trees, Nesting.spanOf origin tokens⟩ := by
  rw [nest, Nesting.nestFrom_of_marks h hlimit]
  rfl

/-- The brackets of tokens that some trees are made of match. -/
theorem balanced_of_marks {trees : List (Tree P)} {tokens : List (Token P)}
    (h : Tree.allMarks trees = tokens.map Token.mark) : ∃ depth, Balanced tokens depth := by
  have hresult := Nesting.nestFrom_result (Tree.maxDepth trees) tokens
  rw [Nesting.nestFrom_of_marks h (Nat.le_refl _)] at hresult
  obtain ⟨depth, -, hbalanced⟩ := hresult.balanced
  exact ⟨depth, hbalanced⟩

end LetWhile
