import LetWhile.Tree.Basic

/-!
# Sizes of slices

The size of a slice is the number of tokens that it was nested from: a group counts its two
brackets. Parts of a slice are smaller by what they leave out.
-/

namespace LetWhile

variable {P : Type}

namespace Tree

mutual

/-- The number of tokens of a tree. -/
def size : Tree P → Nat
  | leaf _ => 1
  | group _ children _ => 2 + sizes children

/-- The number of tokens of a slice. -/
def sizes : List (Tree P) → Nat
  | [] => 0
  | tree :: rest => tree.size + sizes rest

end

/-- No trees have no size. -/
@[simp]
theorem sizes_nil : sizes ([] : List (Tree P)) = 0 := by simp [sizes]

/-- The sizes of trees add up. -/
@[simp]
theorem sizes_cons (tree : Tree P) (rest : List (Tree P)) :
    sizes (tree :: rest) = tree.size + sizes rest := by simp [sizes]

/-- A leaf has the size one. -/
@[simp]
theorem size_leaf (token : Token P) : (leaf token).size = 1 := by simp [size]

/-- A group is two larger than its children, one for each bracket. -/
@[simp]
theorem size_group (bracket : Bracket) (children : List (Tree P)) (span : Span P) :
    (group bracket children span).size = 2 + sizes children := by simp [size]

/-- The sizes of two lists of trees add up. -/
@[simp]
theorem sizes_append (l m : List (Tree P)) : sizes (l ++ m) = sizes l + sizes m := by
  induction l with
  | nil => simp
  | cons tree l ih => simp [ih, Nat.add_assoc]

/-- A tree has a size. -/
theorem size_pos (tree : Tree P) : 0 < tree.size := by
  cases tree with
  | leaf token => exact Nat.one_pos
  | group bracket children span =>
    rw [size_group]
    omega

/-- A group is two larger than the trees of its region. -/
theorem size_of_region? {bracket : Bracket} {tree : Tree P} {region : Region P}
    (h : tree.region? bracket = some region) : tree.size = 2 + sizes region.trees := by
  cases tree with
  | leaf => cases h
  | group b children span =>
    simp only [region?, Option.ite_none_right_eq_some, Option.some.injEq] at h
    obtain ⟨-, rfl⟩ := h
    exact size_group ..

/-- Each part between commas is at most as large as the slice. -/
theorem sizes_parts_le (trees : List (Tree P)) :
    ∀ part ∈ commaParts.parts trees, sizes part ≤ sizes trees := by
  induction trees with
  | nil => simp [commaParts.parts]
  | cons tree rest ih =>
    intro part hpart
    unfold commaParts.parts at hpart
    split at hpart
    · rcases List.mem_cons.1 hpart with rfl | hpart
      · simp
      · have := ih part hpart
        simp only [sizes_cons]
        omega
    · split at hpart
      · rw [List.mem_singleton.1 hpart]
        simp
      · rename_i first more hparts
        rw [hparts] at ih
        rcases List.mem_cons.1 hpart with rfl | hpart
        · have := ih first (by simp)
          simp only [sizes_cons]
          omega
        · have := ih part (by simp [hpart])
          simp only [sizes_cons]
          omega

/-- A part between commas is no larger than the whole. -/
theorem sizes_commaParts_le {trees part : List (Tree P)} (h : part ∈ commaParts trees) :
    sizes part ≤ sizes trees := by
  cases trees with
  | nil => cases h
  | cons tree rest => exact sizes_parts_le (tree :: rest) part h

end Tree

end LetWhile
