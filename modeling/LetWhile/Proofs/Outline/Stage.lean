import LetWhile.Outline.OfTrees

/-!
# Faults of outlining

Outlining finds faults of its own stage and no others (`Outline.ofRegion_faultsIn`).
-/

namespace LetWhile

variable {P : Type}

/-- The fault of an outcome, if it is one, is found at one of the given stages. -/
def Outcome.FaultsIn {α : Type} (stages : Stage → Prop) (outcome : Outcome P α) : Prop :=
  ∀ fault, outcome = .error fault → stages fault.cause.stage

namespace Outcome.FaultsIn
variable {α β γ : Type} {stages : Stage → Prop}

/-- An outcome without a fault has its faults in any stages. -/
theorem ok (a : α) : FaultsIn (P := P) stages (.ok a) := nofun

/-- A fault is in the stages that its cause belongs to. -/
theorem error {fault : Fault P} (h : stages fault.cause.stage) :
    FaultsIn (α := α) stages (.error fault) := by
  rintro _ ⟨⟩
  exact h

/-- Faults that are in some stages are in any larger set of stages. -/
theorem mono {outcome : Outcome P α} {more : Stage → Prop} (h : outcome.FaultsIn stages)
    (hs : ∀ stage, stages stage → more stage) : outcome.FaultsIn more :=
  fun fault hf => hs _ (h fault hf)

/-- What is bound has its faults in the stages that both parts have them in. The second part counts
only where the first comes to a value. -/
theorem bind {outcome : Outcome P α} {next : α → Outcome P β} (h : outcome.FaultsIn stages)
    (hnext : ∀ a, outcome = .ok a → (next a).FaultsIn stages) :
    FaultsIn stages (outcome >>= next) := by
  cases outcome with
  | error fault => exact error (h fault rfl)
  | ok a => exact hnext a rfl

/-- A value is changed without a fault. -/
theorem map {outcome : Outcome P α} (h : outcome.FaultsIn stages) (f : α → β) :
    FaultsIn stages (outcome.map f) := by
  cases outcome with
  | error fault => exact error (h fault rfl)
  | ok a => exact ok (f a)

/-- A list is read with faults in the stages that its items are read with. -/
theorem mapM {read : γ → Outcome P α} {items : List γ}
    (h : ∀ item ∈ items, (read item).FaultsIn stages) : FaultsIn stages (items.mapM read) := by
  induction items with
  | nil => exact ok []
  | cons item items ih =>
    obtain ⟨hitem, hitems⟩ := List.forall_mem_cons.1 h
    rw [List.mapM_cons]
    exact hitem.bind fun a _ => (ih hitems).bind fun more _ => ok (a :: more)

/-- A run over a list has its faults in the stages that each of its steps has them in. -/
theorem foldlM {step : β → γ → Outcome P β} {items : List γ}
    (h : ∀ b, ∀ item ∈ items, (step b item).FaultsIn stages) (b : β) :
    FaultsIn stages (items.foldlM step b) := by
  induction items generalizing b with
  | nil => exact ok b
  | cons item items ih =>
    rw [List.foldlM_cons]
    exact (h b item (by simp)).bind fun b _ => ih (fun b item hi => h b item (by simp [hi])) b

end Outcome.FaultsIn

namespace Outline

open Outcome

/-- A tree that is not expected is a fault of outlining. -/
theorem unexpected_stage (message : String) (last : Tree P) (found : Option (Tree P)) :
    (unexpected message last found).cause.stage = .outlining := by
  cases found <;> rfl

/-- Asking for a tree fails in outlining only. -/
theorem next_faultsIn {α : Type} (message : String) (read? : Tree P → Option α) (last : Tree P)
    (trees : List (Tree P)) : (next message read? last trees).FaultsIn (· = .outlining) := by
  unfold next
  split
  · exact .error (unexpected_stage ..)
  · split
    · exact .ok _
    · exact .error (unexpected_stage ..)

/-- Looking for a semicolon fails in outlining only. -/
theorem runToSemicolon_faultsIn (after : P) (trees : List (Tree P)) :
    (runToSemicolon after trees).FaultsIn (· = .outlining) := by
  unfold runToSemicolon
  split
  · exact .ok _
  · exact .error rfl

/-- Cutting off a declaration fails in outlining only: at a tree of its head, at a missing `=` or at
a missing semicolon. -/
theorem cutDeclare_faultsIn (first : Tree P) (rest : List (Tree P)) :
    (cutDeclare first rest).FaultsIn (· = .outlining) := by
  refine (next_faultsIn _ _ _ _).bind fun name _ => (next_faultsIn _ _ _ _).bind fun colon _ => ?_
  split
  · exact .error (unexpected_stage ..)
  · exact (runToSemicolon_faultsIn _ _).bind fun _ _ => .ok _

/-- Cutting off a branch fails in outlining only: one of its trees is not the one that its shape
asks for. -/
theorem cutBranch_faultsIn (first : Tree P) (rest : List (Tree P)) :
    (cutBranch first rest).FaultsIn (· = .outlining) :=
  (next_faultsIn _ _ _ _).bind fun _ _ => (next_faultsIn _ _ _ _).bind fun _ _ =>
    (next_faultsIn _ _ _ _).bind fun _ _ => (next_faultsIn _ _ _ _).bind fun _ _ => .ok _

/-- Cutting off a loop fails in outlining only, at a tree of its shape. -/
theorem cutLoop_faultsIn (first : Tree P) (rest : List (Tree P)) :
    (cutLoop first rest).FaultsIn (· = .outlining) :=
  (next_faultsIn _ _ _ _).bind fun _ _ => (next_faultsIn _ _ _ _).bind fun _ _ => .ok _

/-- Cutting off a return fails in outlining only: there is no semicolon. -/
theorem cutReturn_faultsIn (first : Tree P) (rest : List (Tree P)) :
    (cutReturn first rest).FaultsIn (· = .outlining) := by
  refine (runToSemicolon_faultsIn _ _).bind fun value _ => ?_
  split <;> exact .ok _

/-- Cutting off an assignment or an expression fails in outlining only. -/
theorem cutPlain_faultsIn (first : Tree P) (rest : List (Tree P)) :
    (cutPlain first rest).FaultsIn (· = .outlining) := by
  unfold cutPlain
  split
  · exact .ok _
  · split
    · unfold cutAssign
      split
      · exact .error rfl
      · exact (runToSemicolon_faultsIn _ _).bind fun _ _ => .ok _
    · exact (runToSemicolon_faultsIn _ _).bind fun _ _ => .ok _

/-- Cutting off a statement of any shape fails in outlining only. -/
theorem cutFirst_faultsIn (first : Tree P) (rest : List (Tree P)) :
    (cutFirst first rest).FaultsIn (· = .outlining) := by
  unfold cutFirst
  split
  · exact cutDeclare_faultsIn _ _
  · split
    · exact cutBranch_faultsIn _ _
    · split
      · exact cutLoop_faultsIn _ _
      · split
        · exact cutReturn_faultsIn _ _
        · exact cutPlain_faultsIn _ _

/-- Outlining fails in outlining only, also in the blocks of branches and loops. -/
theorem ofTrees_faultsIn (trees : List (Tree P)) : (ofTrees trees).FaultsIn (· = .outlining) := by
  induction trees using ofTrees.induct with
  | case1 =>
    rw [ofTrees_nil]
    exact .ok _
  | case2 first rest fault hcut =>
    rw [ofTrees_error hcut]
    exact .error (cutFirst_faultsIn first rest fault hcut)
  | case3 first rest stmt after hcut ih =>
    rw [ofTrees_plain hcut]
    exact ih.bind fun _ _ => .ok _
  | case4 first rest condition yes no span after hcut ihyes ihno ih =>
    rw [ofTrees_branch hcut]
    exact ihyes.bind fun _ _ => ihno.bind fun _ _ => ih.bind fun _ _ => .ok _
  | case5 first rest condition body span after hcut ihbody ih =>
    rw [ofTrees_loop hcut]
    exact ihbody.bind fun _ _ => ih.bind fun _ _ => .ok _

/-- Outlining a region finds faults of outlining only. -/
theorem ofRegion_faultsIn (region : Region P) : (ofRegion region).FaultsIn (· = .outlining) :=
  (ofTrees_faultsIn region.trees).map _

end Outline

end LetWhile
