import LetWhile.Outline.Cut

/-!
# Outlining a block

A slice is cut into statements from the front, and the blocks of a branch or a loop are outlined
before what follows it. Each cut takes something off the slice (`Cut.Smaller`), which bounds the
recursion.
-/

namespace LetWhile

namespace Outline
variable {P : Type}

/-! ## Cuts take something off -/

/-- What is left of a slice of the given size after a cut is no larger, and blocks in the piece cut
off are smaller. -/
structure Cut.Smaller (cut : Cut P) (size : Nat) : Prop where
  rest : sizeOf cut.rest ≤ size
  branch : ∀ {condition yes no span}, cut.piece = .branch condition yes no span →
    sizeOf yes.trees < size ∧ sizeOf no.trees < size
  loop : ∀ {condition body span}, cut.piece = .loop condition body span → sizeOf body.trees < size

theorem Cut.Smaller.plain {stmt : Stmt P} {rest : List (Tree P)} {size : Nat}
    (h : sizeOf rest ≤ size) : (Cut.mk (.plain stmt) rest).Smaller size :=
  ⟨h, nofun, nofun⟩

theorem sizeOf_le_append_right (l m : List (Tree P)) : sizeOf m ≤ sizeOf (l ++ m) := by
  induction l with
  | nil => simp
  | cons tree l ih => simp only [List.cons_append, List.cons.sizeOf_spec]; omega

theorem sizeOf_rest_of_runTo {ends : Tree P → Bool} {trees : List (Tree P)} {run : Run P}
    (h : runTo ends trees = some run) : sizeOf run.rest ≤ sizeOf trees := by
  obtain ⟨separator, rfl, -⟩ := runTo_eq_some h
  have := sizeOf_le_append_right run.trees (separator :: run.rest)
  simp only [List.cons.sizeOf_spec] at this
  omega

theorem sizeOf_trees_of_region? {bracket : Bracket} {tree : Tree P} {region : Region P}
    (h : tree.region? bracket = some region) : sizeOf region.trees < sizeOf tree := by
  cases tree with
  | leaf => simp [Tree.region?] at h
  | group b children span =>
    simp only [Tree.region?] at h
    split at h
    · cases h; simp only [Tree.group.sizeOf_spec]; omega
    · simp at h

theorem cutDeclare_smaller {first : Tree P} {rest : List (Tree P)} {cut : Cut P}
    (h : cutDeclare first rest = .ok cut) : cut.Smaller (sizeOf rest) := by
  obtain ⟨name, hname, h⟩ := Outcome.bind_eq_ok.1 h
  obtain ⟨colon, hcolon, h⟩ := Outcome.bind_eq_ok.1 h
  split at h
  · simp at h
  · rename_i type htype
    obtain ⟨value, hvalue, h⟩ := Outcome.bind_eq_ok.1 h
    cases h
    have h1 := congrArg sizeOf (next_ok hname).1
    have h2 := congrArg sizeOf (next_ok hcolon).1
    have h3 := sizeOf_rest_of_runTo htype
    have h4 := sizeOf_rest_of_runTo (runToSemicolon_ok hvalue)
    simp only [List.cons.sizeOf_spec] at h1 h2
    exact .plain (by omega)

theorem cutBranch_smaller {first : Tree P} {rest : List (Tree P)} {cut : Cut P}
    (h : cutBranch first rest = .ok cut) : cut.Smaller (sizeOf rest) := by
  obtain ⟨condition, hcondition, h⟩ := Outcome.bind_eq_ok.1 h
  obtain ⟨yes, hyes, h⟩ := Outcome.bind_eq_ok.1 h
  obtain ⟨otherwise, hotherwise, h⟩ := Outcome.bind_eq_ok.1 h
  obtain ⟨no, hno, h⟩ := Outcome.bind_eq_ok.1 h
  cases h
  have h1 := congrArg sizeOf (next_ok hcondition).1
  have h2 := congrArg sizeOf (next_ok hyes).1
  have h3 := congrArg sizeOf (next_ok hotherwise).1
  have h4 := congrArg sizeOf (next_ok hno).1
  have h5 := sizeOf_trees_of_region? (next_ok hyes).2
  have h6 := sizeOf_trees_of_region? (next_ok hno).2
  simp only [List.cons.sizeOf_spec] at h1 h2 h3 h4
  exact ⟨by simp only; omega, fun h => by cases h; omega, nofun⟩

theorem cutLoop_smaller {first : Tree P} {rest : List (Tree P)} {cut : Cut P}
    (h : cutLoop first rest = .ok cut) : cut.Smaller (sizeOf rest) := by
  obtain ⟨condition, hcondition, h⟩ := Outcome.bind_eq_ok.1 h
  obtain ⟨body, hbody, h⟩ := Outcome.bind_eq_ok.1 h
  cases h
  have h1 := congrArg sizeOf (next_ok hcondition).1
  have h2 := congrArg sizeOf (next_ok hbody).1
  have h3 := sizeOf_trees_of_region? (next_ok hbody).2
  simp only [List.cons.sizeOf_spec] at h1 h2
  exact ⟨by simp only; omega, nofun, fun h => by cases h; omega⟩

theorem cutReturn_smaller {first : Tree P} {rest : List (Tree P)} {cut : Cut P}
    (h : cutReturn first rest = .ok cut) : cut.Smaller (sizeOf rest) := by
  obtain ⟨value, hvalue, h⟩ := Outcome.bind_eq_ok.1 h
  have := sizeOf_rest_of_runTo (runToSemicolon_ok hvalue)
  split at h <;> cases h <;> exact .plain this

theorem cutAssign_smaller {first equals : Tree P} {rest : List (Tree P)} {cut : Cut P}
    (h : cutAssign first equals rest = .ok cut) : cut.Smaller (sizeOf rest) := by
  simp only [cutAssign] at h
  split at h
  · simp at h
  · obtain ⟨value, hvalue, h⟩ := Outcome.bind_eq_ok.1 h
    cases h
    exact .plain (sizeOf_rest_of_runTo (runToSemicolon_ok hvalue))

theorem cutExpression_smaller {first : Tree P} {rest : List (Tree P)} {cut : Cut P}
    (h : cutExpression first rest = .ok cut) : cut.Smaller (sizeOf rest) := by
  obtain ⟨value, hvalue, h⟩ := Outcome.bind_eq_ok.1 h
  cases h
  obtain ⟨separator, htrees, -⟩ := runTo_eq_some (runToSemicolon_ok hvalue)
  apply Cut.Smaller.plain
  cases hl : value.trees with
  | nil =>
    rw [hl] at htrees
    cases htrees
    exact Nat.le_refl _
  | cons tree trees =>
    rw [hl, List.cons_append] at htrees
    cases htrees
    have := sizeOf_le_append_right trees (separator :: value.rest)
    simp only [List.cons.sizeOf_spec] at this
    omega

theorem cutFirst_smaller {first : Tree P} {rest : List (Tree P)} {cut : Cut P}
    (h : cutFirst first rest = .ok cut) : cut.Smaller (sizeOf rest) := by
  simp only [cutFirst] at h
  repeat' split at h
  · exact cutDeclare_smaller h
  · exact cutBranch_smaller h
  · exact cutLoop_smaller h
  · exact cutReturn_smaller h
  · cases rest with
    | nil => cases h; exact .plain (Nat.le_refl _)
    | cons second rest =>
      simp only [cutPlain] at h
      split at h
      · have := (cutAssign_smaller h)
        have hs : sizeOf rest ≤ sizeOf (second :: rest) := by simp
        exact ⟨Nat.le_trans this.rest hs,
          fun hp => ⟨Nat.lt_of_lt_of_le (this.branch hp).1 hs,
            Nat.lt_of_lt_of_le (this.branch hp).2 hs⟩,
          fun hp => Nat.lt_of_lt_of_le (this.loop hp) hs⟩
      · exact cutExpression_smaller h

/-! ## Outlining -/

/-- The statements of a slice. -/
def ofTrees (trees : List (Tree P)) : Outcome P (List (Stmt P)) :=
  match trees with
  | [] => .ok []
  | first :: rest =>
    match _cut : cutFirst first rest with
    | .error fault => .error fault
    | .ok ⟨.plain stmt, rest⟩ => do
      let stmts ← ofTrees rest
      .ok (stmt :: stmts)
    | .ok ⟨.branch condition yes no span, rest⟩ => do
      let yesStmts ← ofTrees yes.trees
      let noStmts ← ofTrees no.trees
      let stmts ← ofTrees rest
      .ok (.branch condition ⟨yesStmts, yes.span⟩ ⟨noStmts, no.span⟩ span :: stmts)
    | .ok ⟨.loop condition body span, rest⟩ => do
      let bodyStmts ← ofTrees body.trees
      let stmts ← ofTrees rest
      .ok (.loop condition ⟨bodyStmts, body.span⟩ span :: stmts)
termination_by sizeOf trees
decreasing_by
  all_goals
    have hs := cutFirst_smaller ‹_›
    have hr := hs.rest
    simp only [List.cons.sizeOf_spec] at hr ⊢
    first
    | omega
    | have := hs.branch rfl; omega
    | have := hs.loop rfl; omega

section
variable {first : Tree P} {rest after : List (Tree P)}

@[simp]
theorem ofTrees_nil : ofTrees ([] : List (Tree P)) = .ok [] := by
  rw [ofTrees]

theorem ofTrees_error {fault : Fault P} (h : cutFirst first rest = .error fault) :
    ofTrees (first :: rest) = .error fault := by
  rw [ofTrees]
  split <;> simp_all

theorem ofTrees_plain {stmt : Stmt P} (h : cutFirst first rest = .ok ⟨.plain stmt, after⟩) :
    ofTrees (first :: rest) = (do
      let stmts ← ofTrees after
      .ok (stmt :: stmts)) := by
  rw [ofTrees]
  split <;> simp_all

theorem ofTrees_branch {condition yes no : Region P} {span : Span P}
    (h : cutFirst first rest = .ok ⟨.branch condition yes no span, after⟩) :
    ofTrees (first :: rest) = (do
      let yesStmts ← ofTrees yes.trees
      let noStmts ← ofTrees no.trees
      let stmts ← ofTrees after
      .ok (.branch condition ⟨yesStmts, yes.span⟩ ⟨noStmts, no.span⟩ span :: stmts)) := by
  rw [ofTrees]
  split <;> simp_all

theorem ofTrees_loop {condition body : Region P} {span : Span P}
    (h : cutFirst first rest = .ok ⟨.loop condition body span, after⟩) :
    ofTrees (first :: rest) = (do
      let bodyStmts ← ofTrees body.trees
      let stmts ← ofTrees after
      .ok (.loop condition ⟨bodyStmts, body.span⟩ span :: stmts)) := by
  rw [ofTrees]
  split <;> simp_all

end

/-- The statements of a region, as a block. -/
def ofRegion (region : Region P) : Outcome P (Block P) :=
  (ofTrees region.trees).map fun stmts => ⟨stmts, region.span⟩

end Outline

end LetWhile
