import LetWhile.Proofs.Ty.Distinct
import Mathlib.Data.List.Pairwise
import Mathlib.Data.List.Perm.Basic

/-!
# First occurrences

The distinct types of a list are its first occurrences (`Ty.dedup_eq_iff`): its members, once each,
in the order in which they first occur. They are collected one after another
(`Ty.dedup_eq_foldl`), and each type is compared with those found before by `Ty.same`, which goes
through two lists of parameters of one length pair by pair (`Ty.sameAll_eq_all_zip`).
-/

namespace LetWhile

namespace Ty

/-- Two lists hold the same types if they have one length and the same types side by side. A zip
leaves out what one list has more than the other, so it does not tell lists of two lengths apart. -/
theorem sameAll_eq_all_zip (l m : List Ty) :
    sameAll l m = (l.length == m.length && (l.zip m).all fun (t, u) => t.same u) := by
  induction l generalizing m with
  | nil => cases m <;> rfl
  | cons t l ih =>
    cases m with
    | nil => rfl
    | cons u m =>
      rw [sameAll, ih, List.zip_cons_cons, List.all_cons, List.length_cons, List.length_cons,
        Bool.and_left_comm]
      simp

/-- Function types are the same if they have as many parameters, of the same types, and the same
result. -/
theorem same_function (ps qs : List Ty) (r s : Ty) :
    (function ps r).same (function qs s) =
      (ps.length == qs.length && (ps.zip qs).all (fun (p, q) => p.same q) && r.same s) := by
  rw [same, sameAll_eq_all_zip]

/-! ## Collecting types -/

/-- Distinct types, and behind them one more if it is the same as none of them. -/
def adjoin (distinct : List Ty) (t : Ty) : List Ty :=
  if distinct.any (·.same t) then distinct else distinct ++ [t]

/-- A type is the same as one of several exactly if it is among them. -/
theorem any_same_iff {types : List Ty} {t : Ty} : types.any (·.same t) = true ↔ t ∈ types := by
  simp [List.any_eq_true, same_iff]

/-- Adding types one by one to distinct ones comes to the same as leaving out those that were
seen. -/
theorem foldl_adjoin (distinct types : List Ty) :
    types.foldl adjoin distinct = distinct ++ dedupFrom distinct types := by
  induction types generalizing distinct with
  | nil => rw [dedupFrom, List.append_nil]; rfl
  | cons t rest ih =>
    rw [List.foldl_cons, ih, dedupFrom, adjoin]
    by_cases ht : t ∈ distinct
    · rw [if_pos (any_same_iff.2 ht), if_pos ht]
    · have hseen : ∀ u, u ∈ distinct ++ [t] ↔ u ∈ t :: distinct := by simp [or_comm]
      rw [if_neg (mt any_same_iff.1 ht), if_neg ht, List.append_assoc, List.singleton_append,
        dedupFrom_congr hseen]

/-- The distinct types of a list are collected one after another. -/
theorem dedup_eq_foldl (types : List Ty) : dedup types = types.foldl adjoin [] :=
  (foldl_adjoin [] types).symm

/-! ## The order of first occurrences -/

/-- Types that were not seen keep the order of their first occurrences. -/
theorem idxOf_dedupFrom_lt_iff {seen : List Ty} {t u : Ty} (ht : t ∉ seen) (hu : u ∉ seen)
    (types : List Ty) : (dedupFrom seen types).idxOf t < (dedupFrom seen types).idxOf u ↔
      types.idxOf t < types.idxOf u := by
  induction types generalizing seen with
  | nil => rfl
  | cons v rest ih =>
    -- What was seen is neither of the two, so leaving it out moves both forward alike.
    by_cases hv : v ∈ seen
    · have hvt : v ≠ t := fun h => ht (h ▸ hv)
      have hvu : v ≠ u := fun h => hu (h ▸ hv)
      rw [dedupFrom, if_pos hv, ih ht hu, List.idxOf_cons_ne _ hvt, List.idxOf_cons_ne _ hvu,
        Nat.succ_lt_succ_iff]
    · rw [dedupFrom, if_neg hv]
      by_cases hvu : v = u
      · rw [List.idxOf_cons_eq _ hvu, List.idxOf_cons_eq _ hvu]
        exact iff_of_false (Nat.not_lt_zero _) (Nat.not_lt_zero _)
      by_cases hvt : v = t
      · rw [List.idxOf_cons_eq _ hvt, List.idxOf_cons_eq _ hvt, List.idxOf_cons_ne _ hvu,
          List.idxOf_cons_ne _ hvu]
        exact iff_of_true (Nat.succ_pos _) (Nat.succ_pos _)
      · have ht' : t ∉ v :: seen := List.not_mem_cons_of_ne_of_not_mem (Ne.symm hvt) ht
        have hu' : u ∉ v :: seen := List.not_mem_cons_of_ne_of_not_mem (Ne.symm hvu) hu
        rw [List.idxOf_cons_ne _ hvt, List.idxOf_cons_ne _ hvt, List.idxOf_cons_ne _ hvu,
          List.idxOf_cons_ne _ hvu, Nat.succ_lt_succ_iff, Nat.succ_lt_succ_iff, ih ht' hu']

/-- Some types are the first occurrences in others: the same members, pairwise different, one before
another if and only if it first occurs earlier. -/
structure FirstOccurrences (types distinct : List Ty) : Prop where
  mem : ∀ t, t ∈ distinct ↔ t ∈ types
  nodup : distinct.Nodup
  before : ∀ t u, distinct.idxOf t < distinct.idxOf u ↔ types.idxOf t < types.idxOf u

/-- What is left of types are their first occurrences. -/
theorem firstOccurrences_dedup (types : List Ty) : FirstOccurrences types (dedup types) where
  mem _ := mem_dedup
  nodup := dedup_nodup types
  before _ _ := idxOf_dedupFrom_lt_iff List.not_mem_nil List.not_mem_nil types

/-- First occurrences are in the order of the types. -/
theorem FirstOccurrences.pairwise {types distinct : List Ty} (h : FirstOccurrences types distinct) :
    distinct.Pairwise fun t u => types.idxOf t < types.idxOf u := by
  refine List.pairwise_iff_getElem.2 fun i j hi hj hij => (h.before _ _).1 ?_
  rwa [h.nodup.idxOf_getElem i hi, h.nodup.idxOf_getElem j hj]

/-- There is one list of the first occurrences in a list. -/
theorem FirstOccurrences.unique {types distinct other : List Ty}
    (h : FirstOccurrences types distinct) (h' : FirstOccurrences types other) :
    distinct = other := by
  have hperm : distinct.Perm other :=
    (List.perm_ext_iff_of_nodup h.nodup h'.nodup).2 fun t => (h.mem t).trans (h'.mem t).symm
  refine hperm.eq_of_pairwise (fun t u _ _ htu hut => ?_) h.pairwise h'.pairwise
  exact absurd htu (Nat.lt_asymm hut)

/-- The distinct types of a list are the first occurrences in it. -/
theorem dedup_eq_iff {types distinct : List Ty} :
    dedup types = distinct ↔ FirstOccurrences types distinct :=
  ⟨fun h => h ▸ firstOccurrences_dedup types, (firstOccurrences_dedup types).unique⟩

/-- Comparing types decides whether they are equal, and leaving out repeated types keeps exactly the
first occurrences: doing so again changes nothing, and neither does doing so to the parts of a list
first. -/
theorem distinct_exact :
    (∀ a b : Ty, a.same b = true ↔ a = b) ∧
    (∀ (ps qs : List Ty) (r s : Ty), (function ps r).same (function qs s) =
      (ps.length == qs.length && (ps.zip qs).all (fun (p, q) => p.same q) && r.same s)) ∧
    (∀ types : List Ty, dedup types = types.foldl adjoin []) ∧
    (∀ types distinct : List Ty, dedup types = distinct ↔ FirstOccurrences types distinct) ∧
    (∀ types : List Ty, dedup (dedup types) = dedup types) ∧
    ∀ l m : List Ty, dedup (l ++ m) = dedup (dedup l ++ dedup m) :=
  ⟨fun _ _ => same_iff, same_function, dedup_eq_foldl, fun _ _ => dedup_eq_iff, dedup_dedup,
    fun l m => (dedup_append_dedup l m).symm⟩

end Ty

end LetWhile
