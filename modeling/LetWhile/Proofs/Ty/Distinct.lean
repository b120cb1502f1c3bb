import LetWhile.Ty.Basic

/-!
# Distinct types

`Ty.dedup` lists the members of a list once each, in order of first occurrence. Which types were
seen before matters only as a set (`Ty.dedupFrom_congr`), so the distinct types of two lists together
are those of their distinct types together (`Ty.dedup_append_dedup`), and there is at most one where
all members are equal (`Ty.length_dedup_le_one_iff`). The list is that of `List.eraseDups`
(`Ty.dedup_eq_eraseDups`).
-/

namespace LetWhile

namespace Ty

/-- What is left are the types that were not seen before. -/
theorem mem_dedupFrom {seen types : List Ty} {t : Ty} :
    t ∈ dedupFrom seen types ↔ t ∈ types ∧ t ∉ seen := by
  induction types generalizing seen with
  | nil => simp [dedupFrom]
  | cons u rest ih =>
    unfold dedupFrom
    split
    · rw [ih, List.mem_cons]
      grind
    · rw [List.mem_cons, ih, List.mem_cons, List.mem_cons]
      grind

/-- No type is lost. -/
@[simp]
theorem mem_dedup {types : List Ty} {t : Ty} : t ∈ dedup types ↔ t ∈ types := by
  simp [dedup, mem_dedupFrom]

/-- Only which types were seen matters, and not in which order or how often. -/
theorem dedupFrom_congr {seen seen' : List Ty} (h : ∀ t, t ∈ seen ↔ t ∈ seen') (types : List Ty) :
    dedupFrom seen types = dedupFrom seen' types := by
  induction types generalizing seen seen' with
  | nil => rfl
  | cons u rest ih =>
    unfold dedupFrom
    simp only [h u]
    split
    · exact ih h
    · rw [ih (show ∀ t, t ∈ u :: seen ↔ t ∈ u :: seen' by simp [h])]

/-- The second of two lists adds what was seen neither before nor in the first. -/
theorem dedupFrom_append (seen l m : List Ty) :
    dedupFrom seen (l ++ m) = dedupFrom seen l ++ dedupFrom (l ++ seen) m := by
  induction l generalizing seen with
  | nil => rfl
  | cons u rest ih =>
    rw [List.cons_append]
    by_cases hu : u ∈ seen
    · rw [dedupFrom, if_pos hu, dedupFrom, if_pos hu, ih]
      exact congrArg _ (dedupFrom_congr (by grind) m)
    · rw [dedupFrom, if_neg hu, dedupFrom, if_neg hu, ih, List.cons_append]
      exact congrArg _ (congrArg _ (dedupFrom_congr (by grind) m))

/-- Types that were dropped because they had been seen would be dropped again. -/
theorem dedupFrom_dedupFrom {seen seen' : List Ty} (h : ∀ t ∈ seen', t ∈ seen) (types : List Ty) :
    dedupFrom seen (dedupFrom seen' types) = dedupFrom seen types := by
  induction types generalizing seen seen' with
  | nil => rfl
  | cons u rest ih =>
    by_cases hu' : u ∈ seen'
    · rw [dedupFrom, if_pos hu', dedupFrom, if_pos (h u hu'), ih h]
    · rw [dedupFrom, if_neg hu']
      by_cases hu : u ∈ seen
      · rw [dedupFrom, if_pos hu, dedupFrom, if_pos hu, ih (by grind)]
      · rw [dedupFrom, if_neg hu, dedupFrom, if_neg hu, ih (by grind)]

/-- Distinct types are left as they are. -/
@[simp]
theorem dedup_dedup (types : List Ty) : dedup (dedup types) = dedup types :=
  dedupFrom_dedupFrom (fun _ h => h) types

/-- Whether the parts of a list are made distinct first changes nothing. -/
theorem dedup_append_dedup (l m : List Ty) : dedup (dedup l ++ dedup m) = dedup (l ++ m) := by
  unfold dedup
  rw [dedupFrom_append, dedupFrom_append, dedupFrom_dedupFrom (fun _ h => h),
    dedupFrom_dedupFrom (by simp)]
  exact congrArg _ (dedupFrom_congr (by simp [mem_dedupFrom]) m)

/-- Which types of a joined list are distinct depends on the distinct ones of its parts. -/
theorem dedup_append_congr {l l' m m' : List Ty} (hl : dedup l = dedup l')
    (hm : dedup m = dedup m') : dedup (l ++ m) = dedup (l' ++ m') := by
  rw [← dedup_append_dedup l, hl, hm, dedup_append_dedup]

/-- No type is left twice. -/
theorem dedup_nodup (types : List Ty) : (dedup types).Nodup := by
  have (seen : List Ty) : (dedupFrom seen types).Nodup := by
    induction types generalizing seen with
    | nil => exact .nil
    | cons u rest ih =>
      unfold dedupFrom
      split
      · exact ih seen
      · exact List.nodup_cons.2 ⟨by simp [mem_dedupFrom], ih _⟩
  exact this []

/-- There is at most one distinct type where all are equal. -/
theorem length_dedup_le_one_iff {types : List Ty} :
    (dedup types).length ≤ 1 ↔ ∀ t ∈ types, ∀ u ∈ types, t = u := by
  refine ⟨?_, ?_⟩
  · intro h t ht u hu
    rw [← mem_dedup] at ht hu
    match hd : dedup types, h with
    | [], _ => rw [hd] at ht; cases ht
    | [v], _ =>
      rw [hd, List.mem_singleton] at ht hu
      rw [ht, hu]
  · intro h
    match hd : dedup types with
    | [] | [_] => simp
    | t :: u :: more =>
      have hne : t ≠ u := by
        have := dedup_nodup types
        rw [hd] at this
        exact fun e => (List.nodup_cons.1 this).1 (e ▸ .head _)
      have ht : t ∈ types := mem_dedup.1 (by rw [hd]; exact .head _)
      have hu : u ∈ types := mem_dedup.1 (by rw [hd]; exact .tail _ (.head _))
      exact absurd (h t ht u hu) hne

/-- If there is one distinct type, it is the first. -/
theorem dedup_cons_eq_singleton {t : Ty} {rest : List Ty} (h : (dedup (t :: rest)).length ≤ 1) :
    dedup (t :: rest) = [t] := by
  rw [dedup, dedupFrom, if_neg List.not_mem_nil] at h ⊢
  rw [List.length_eq_zero_iff.1 (Nat.le_zero.1 (Nat.le_of_succ_le_succ h))]

/-- Types are made distinct as the standard library does it, after those that were seen are taken
out. -/
theorem dedupFrom_eq_eraseDups (seen types : List Ty) :
    dedupFrom seen types = (types.filter fun t => t ∉ seen).eraseDups := by
  induction types generalizing seen with
  | nil => rfl
  | cons u rest ih =>
    by_cases hu : u ∈ seen
    · rw [dedupFrom, if_pos hu, ih, List.filter_cons_of_neg (by simpa)]
    · have hfilter : rest.filter (fun t => t ∉ u :: seen) =
          (rest.filter fun t => t ∉ seen).filter fun t => !t == u := by
        rw [List.filter_filter]
        exact List.filter_congr fun t _ => by
          simp only [List.mem_cons, not_or, Bool.decide_and, decide_not]
          rfl
      rw [dedupFrom, if_neg hu, ih, List.filter_cons_of_pos (by simpa), List.eraseDups_cons,
        hfilter]

/-- Leaving out repeated types is what `List.eraseDups` does. -/
theorem dedup_eq_eraseDups (types : List Ty) : dedup types = types.eraseDups := by
  rw [dedup, dedupFrom_eq_eraseDups, List.filter_eq_self.2 (by simp)]

end Ty

end LetWhile
