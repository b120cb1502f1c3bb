import LetWhile.Proofs.Access.Basic
import LetWhile.Proofs.Program.Cuts

/-!
# Cutting chains by indices

A chain is searched for the operators that it could be cut at, each with its index, and then cut at
the indices of those with the lowest power. The search looks at the tree before an operator, and
begins at the second tree. The indices that are found cut the slice into the operand and the links
that the chain is read from (`Indexed.cutAt_splits`).
-/

namespace LetWhile

namespace Indexed
variable {P : Type}

open Chain (Link joint?)

/-! ## Joints -/

/-- The joint at a place of a slice, if there is one. -/
def jointAt? (elements : List (Tree P)) (place : Tree P × Nat) :
    Indexed P (Option (Token P × Nat)) :=
  match place.1.token? .operator with
  | none => pure none
  | some token => do
    let before ← access (difference place.2 1)
    let previous ← access (element elements before)
    pure (if previous.isKind .operator then none else some (token, place.2))

/-- The joints of a slice with their indices. -/
def joints (elements : List (Tree P)) : Indexed P (List (Token P × Nat)) := do
  let found ← (elements.zipIdx.drop 1).mapM (jointAt? elements)
  pure found.reduceOption

/-- The joints of the trees from an index on, as the cutting of chains sees them. -/
def jointsFrom (index : Nat) (bound : Bool) : List (Tree P) → List (Token P × Nat)
  | [] => []
  | tree :: rest =>
    (joint? bound tree).toList.map (·, index) ++
      jointsFrom (index + 1) (tree.isKind .operator) rest

/-- Without their indices, the joints are those of the chain. -/
theorem jointsFrom_fst (index : Nat) (bound : Bool) (trees : List (Tree P)) :
    (jointsFrom index bound trees).map Prod.fst = Chain.joints bound trees := by
  induction trees generalizing index bound with
  | nil => rfl
  | cons tree rest ih =>
    rw [jointsFrom, Chain.joints, List.map_append, ih, List.map_map]
    congr 1
    exact List.map_id' _

/-- Whether a tree is a joint is read off the one in front of it, which is in range. -/
theorem jointAt?_gives (before : List (Tree P)) (previous tree : Tree P) (rest : List (Tree P)) :
    (jointAt? (before ++ previous :: tree :: rest) (tree, before.length + 1)).Gives
      (.ok ((joint? (previous.isKind .operator) tree).map (·, before.length + 1))) := by
  unfold jointAt? joint?
  cases tree.token? .operator with
  | none =>
    simp only
    split <;> exact .pure _
  | some token =>
    refine .access_bind (difference_add_right ..) (.access_bind (element_append ..) ?_)
    split <;> exact .pure _

/-- All joints of a chain are found in range, at their indices. -/
theorem mapM_jointAt?_gives (previous : Tree P) (trees before : List (Tree P)) :
    ∃ found, ((trees.zipIdx (before.length + 1)).mapM
        (jointAt? (before ++ previous :: trees))).Gives (.ok found) ∧
      found.reduceOption = jointsFrom (before.length + 1) (previous.isKind .operator) trees := by
  induction trees generalizing previous before with
  | nil => exact ⟨[], .pure [], rfl⟩
  | cons tree rest ih =>
    obtain ⟨found, hfound, hjoints⟩ := ih tree (before ++ [previous])
    rw [List.append_assoc] at hfound
    rw [List.length_append] at hfound hjoints
    refine ⟨(joint? (previous.isKind .operator) tree).map (·, before.length + 1) :: found, ?_, ?_⟩
    · rw [List.zipIdx_cons, List.mapM_cons]
      exact (jointAt?_gives before previous tree rest).bind_ok (hfound.bind_ok (.pure _))
    · rw [jointsFrom]
      cases joint? (previous.isKind .operator) tree with
      | none => exact hjoints
      | some token => exact congrArg (_ :: ·) hjoints

/-- The joints of a slice are found without going out of range. -/
theorem joints_gives (tree : Tree P) (rest : List (Tree P)) :
    (joints (tree :: rest)).Gives (.ok (jointsFrom 0 true (tree :: rest))) := by
  obtain ⟨found, hfound, hjoints⟩ := mapM_jointAt?_gives tree rest []
  refine hfound.bind_ok ?_
  rw [hjoints]
  exact .pure _

/-! ## Splits -/

/-- The joints of the given power, as indices with their operators. -/
def splitsOf (power : Nat) (joints : List (Token P × Nat)) : List (Nat × BinaryOp) :=
  joints.filterMap fun joint => (Chain.operatorOf? power joint.1).map (joint.2, ·)

/-- The trees from an index on, cut at splits, are an operand and the links after it. -/
inductive CutAt : Nat → List (Tree P) → List (Nat × BinaryOp) → List (Tree P) → List (Link P) → Prop
  | operand {index : Nat} (operand : List (Tree P)) : CutAt index operand [] operand []
  | link {index : Nat} (operand : List (Tree P)) {rest next : List (Tree P)} {tree : Tree P}
      {op : BinaryOp} {splits : List (Nat × BinaryOp)} {links : List (Link P)} :
    CutAt (index + operand.length + 1) rest splits next links →
    CutAt index (operand ++ tree :: rest) ((index + operand.length, op) :: splits) operand
      (⟨op, tree.span, next⟩ :: links)

namespace CutAt
variable {index : Nat} {trees operand : List (Tree P)} {splits : List (Nat × BinaryOp)}
  {links : List (Link P)}

/-- One more tree in front goes into the first operand and moves no cut. -/
theorem cons {tree : Tree P} (h : CutAt (index + 1) trees splits operand links) :
    CutAt index (tree :: trees) splits (tree :: operand) links := by
  cases h with
  | operand => exact .operand _
  | @link _ operand rest next split op splits links h =>
    have hlength : index + 1 + operand.length = index + (tree :: operand).length := by
      rw [List.length_cons]
      omega
    rw [hlength] at h ⊢
    exact .link _ h

/-- The first operand ends where the first split is, or with the slice. -/
theorem slice_operand (before : List (Tree P))
    (h : CutAt before.length trees splits operand links) :
    slice (before ++ trees) before.length
      ((splits[0]?.map Prod.fst).getD (before ++ trees).length) = some operand := by
  cases h with
  | operand =>
    have := slice_append before trees []
    rwa [List.append_nil] at this
  | @link _ operand rest next split op splits links h =>
    have := slice_append before operand (split :: rest)
    rwa [List.append_assoc, List.length_append] at this

/-- The operand in front of the first cut is where the trees begin. -/
theorem operand_isPrefix (h : CutAt index trees splits operand links) : operand <+: trees := by
  cases h with
  | operand => exact List.prefix_refl _
  | link => exact List.prefix_append _ _

/-- A slice that is cut at all is cut after its first operand. -/
theorem first (h : CutAt 0 trees splits operand links) (hne : splits ≠ []) :
    ∃ split, element splits 0 = some split ∧ sliceTo trees split.1 = some operand := by
  cases h with
  | operand => exact absurd rfl hne
  | @link _ operand rest next tree op splits links h =>
    refine ⟨_, rfl, ?_⟩
    rw [Nat.zero_add]
    exact sliceTo_append operand (tree :: rest)

end CutAt

/-- The splits that are found cut a slice into the operand and the links that it is read from. -/
theorem cutAt_splits (power index : Nat) (bound : Bool) (trees : List (Tree P)) :
    CutAt index trees (splitsOf power (jointsFrom index bound trees))
      (Chain.cut power bound trees).1 (Chain.cut power bound trees).2 := by
  induction trees generalizing index bound with
  | nil => exact .operand []
  | cons tree rest ih =>
    have hrest := ih (index + 1) (tree.isKind .operator)
    unfold Chain.cut jointsFrom
    cases hjoint : joint? bound tree with
    | none => exact hrest.cons
    | some token =>
      obtain ⟨-, rfl, -⟩ := Chain.joint?_eq_some_iff.1 hjoint
      simp only [splitsOf, Option.toList_some, List.map_cons, List.map_nil, List.singleton_append,
        List.filterMap_cons, Option.bind_some]
      cases Chain.operatorOf? power token with
      | none => exact hrest.cons
      | some op => exact .link [] hrest

/-- The lowest power is that of a split. -/
theorem splitsOf_ne_nil {power : Nat} {joints : List (Token P × Nat)}
    (h : Chain.lowestPower? (joints.map Prod.fst) = some power) : splitsOf power joints ≠ [] := by
  obtain ⟨token, ht, hp⟩ := List.mem_filterMap.1 (List.min?_eq_some_iff.1 h).1
  obtain ⟨joint, hjoint, rfl⟩ := List.mem_map.1 ht
  obtain ⟨op, ho, hp⟩ := Option.map_eq_some_iff.1 hp
  have hsplit : (Chain.operatorOf? power joint.1).map (joint.2, ·) = some (joint.2, op) := by
    rw [Chain.operatorOf?_eq_some_iff.2 ⟨ho, hp⟩, Option.map_some]
  exact List.ne_nil_of_mem (List.mem_filterMap.2 ⟨joint, hjoint, hsplit⟩)

end Indexed

end LetWhile
