import LetWhile.Outline.OfTrees
import LetWhile.Proofs.Tree.Size

/-!
# Sizes of outlines

The size of an outline is that of the slices in it, with one for every block. It is bounded by the
size of the slice that was outlined (`Outline.ofTrees_sizes_le`), since a cut leaves out at least
one token for each of its blocks (`Outline.cutFirst_size_le`).
-/

namespace LetWhile

namespace Outline
variable {P : Type}

open LetWhile.Tree

mutual

/-- The size of the slices and blocks of a statement. -/
def Stmt.size : Stmt P → Nat
  | .declare _ type value _ => sizes type + sizes value
  | .assign _ value _ => sizes value
  | .branch condition yes no _ => sizes condition.trees + yes.size + no.size
  | .loop condition body _ => sizes condition.trees + body.size
  | .returnValue value _ => sizes value
  | .returnVoid _ => 0
  | .expression value _ => sizes value

/-- The size of a block. -/
def Block.size : Block P → Nat
  | .mk stmts _ => 1 + Stmt.sizes stmts

/-- The size of a list of statements. -/
def Stmt.sizes : List (Stmt P) → Nat
  | [] => 0
  | stmt :: rest => stmt.size + Stmt.sizes rest

end

/-- No statements have no size. -/
@[simp]
theorem Stmt.sizes_nil : Stmt.sizes ([] : List (Stmt P)) = 0 := by simp [Stmt.sizes]

/-- The sizes of statements add up. -/
@[simp]
theorem Stmt.sizes_cons (stmt : Stmt P) (rest : List (Stmt P)) :
    Stmt.sizes (stmt :: rest) = stmt.size + Stmt.sizes rest := by simp [Stmt.sizes]

/-- A block is one larger than its statements. -/
@[simp]
theorem Block.size_mk (stmts : List (Stmt P)) (span : Span P) :
    (Block.mk stmts span).size = 1 + Stmt.sizes stmts := by simp [Block.size]

/-- A statement is at most as large as all statements it is among. -/
theorem Stmt.size_le_sizes {stmt : Stmt P} {stmts : List (Stmt P)} (h : stmt ∈ stmts) :
    stmt.size ≤ Stmt.sizes stmts := by
  induction stmts with
  | nil => cases h
  | cons first rest ih =>
    simp only [Stmt.sizes_cons]
    rcases List.mem_cons.1 h with rfl | h
    · omega
    · have := ih h
      omega

/-! ## Cuts -/

/-- The size of what a piece will be when its blocks are outlined. -/
def Piece.size : Piece P → Nat
  | .plain stmt => stmt.size
  | .branch condition yes no _ =>
    Tree.sizes condition.trees + (1 + Tree.sizes yes.trees) + (1 + Tree.sizes no.trees)
  | .loop condition body _ => Tree.sizes condition.trees + (1 + Tree.sizes body.trees)

/-- The size of a cut: that of its piece and of the rest. -/
def Cut.size (cut : Cut P) : Nat := cut.piece.size + Tree.sizes cut.rest

/-- A tree that was asked for and the rest have the size of the slice together. -/
theorem sizes_of_next {α : Type} {message : String} {read? : Tree P → Option α} {last : Tree P}
    {trees : List (Tree P)} {step : Step P α} (h : next message read? last trees = .ok step) :
    Tree.sizes trees = step.tree.size + Tree.sizes step.rest := by
  rw [(next_ok h).1, Tree.sizes_cons]

/-- A region that was asked for is two smaller than the tree that it is in. -/
theorem size_of_next_region {message : String} {bracket : Bracket} {last : Tree P}
    {trees : List (Tree P)} {step : Step P (Region P)}
    (h : next message (Tree.region? bracket) last trees = .ok step) :
    step.tree.size = 2 + Tree.sizes step.value.trees :=
  size_of_region? (next_ok h).2

/-- A run, the tree that it stops at and the rest are at most as large as the slice. -/
theorem sizes_of_runTo {ends : Tree P → Bool} {trees : List (Tree P)} {run : Run P}
    (h : runTo ends trees = some run) :
    Tree.sizes run.trees + 1 + Tree.sizes run.rest ≤ Tree.sizes trees := by
  obtain ⟨separator, rfl, -⟩ := runTo_eq_some h
  have := separator.size_pos
  simp only [Tree.sizes_append, Tree.sizes_cons]
  omega

/-- A declaration and what is left are at most as large as the trees behind the `let`. -/
theorem cutDeclare_size_le {first : Tree P} {rest : List (Tree P)} {cut : Cut P}
    (h : cutDeclare first rest = .ok cut) : cut.size ≤ Tree.sizes rest := by
  obtain ⟨name, hname, h⟩ := Outcome.bind_eq_ok.1 h
  obtain ⟨colon, hcolon, h⟩ := Outcome.bind_eq_ok.1 h
  split at h
  · cases h
  · rename_i type htype
    obtain ⟨value, hvalue, h⟩ := Outcome.bind_eq_ok.1 h
    cases h
    have h1 := sizes_of_next hname
    have h2 := sizes_of_next hcolon
    have h3 := sizes_of_runTo htype
    have h4 := sizes_of_runTo (runToSemicolon_ok hvalue)
    simp only [Cut.size, Piece.size, Stmt.size]
    omega

/-- A branch and what is left are at most as large as the trees behind the `if`. -/
theorem cutBranch_size_le {first : Tree P} {rest : List (Tree P)} {cut : Cut P}
    (h : cutBranch first rest = .ok cut) : cut.size ≤ Tree.sizes rest := by
  obtain ⟨condition, hcondition, h⟩ := Outcome.bind_eq_ok.1 h
  obtain ⟨yes, hyes, h⟩ := Outcome.bind_eq_ok.1 h
  obtain ⟨otherwise, hotherwise, h⟩ := Outcome.bind_eq_ok.1 h
  obtain ⟨no, hno, h⟩ := Outcome.bind_eq_ok.1 h
  cases h
  have h1 := sizes_of_next hcondition
  have h2 := sizes_of_next hyes
  have h3 := sizes_of_next hotherwise
  have h4 := sizes_of_next hno
  have h5 := size_of_next_region hcondition
  have h6 := size_of_next_region hyes
  have h7 := size_of_next_region hno
  simp only [Cut.size, Piece.size]
  omega

/-- A loop and what is left are at most as large as the trees behind the `while`. -/
theorem cutLoop_size_le {first : Tree P} {rest : List (Tree P)} {cut : Cut P}
    (h : cutLoop first rest = .ok cut) : cut.size ≤ Tree.sizes rest := by
  obtain ⟨condition, hcondition, h⟩ := Outcome.bind_eq_ok.1 h
  obtain ⟨body, hbody, h⟩ := Outcome.bind_eq_ok.1 h
  cases h
  have h1 := sizes_of_next hcondition
  have h2 := sizes_of_next hbody
  have h3 := size_of_next_region hcondition
  have h4 := size_of_next_region hbody
  simp only [Cut.size, Piece.size]
  omega

/-- A return and what is left are at most as large as the trees behind the keyword. -/
theorem cutReturn_size_le {first : Tree P} {rest : List (Tree P)} {cut : Cut P}
    (h : cutReturn first rest = .ok cut) : cut.size ≤ Tree.sizes rest := by
  obtain ⟨value, hvalue, h⟩ := Outcome.bind_eq_ok.1 h
  have hsize := sizes_of_runTo (runToSemicolon_ok hvalue)
  split at h
  · cases h
    simp only [Cut.size, Piece.size, Stmt.size]
    omega
  · cases h
    simp only [Cut.size, Piece.size, Stmt.size]
    omega

/-- An assignment and what is left are at most as large as the trees behind the `=`. -/
theorem cutAssign_size_le {first equals : Tree P} {rest : List (Tree P)} {cut : Cut P}
    (h : cutAssign first equals rest = .ok cut) : cut.size ≤ Tree.sizes rest := by
  unfold cutAssign at h
  split at h
  · cases h
  · obtain ⟨value, hvalue, h⟩ := Outcome.bind_eq_ok.1 h
    cases h
    have hsize := sizes_of_runTo (runToSemicolon_ok hvalue)
    simp only [Cut.size, Piece.size, Stmt.size]
    omega

/-- An expression and what is left are at most as large as the slice. -/
theorem cutExpression_size_le {first : Tree P} {rest : List (Tree P)} {cut : Cut P}
    (h : cutExpression first rest = .ok cut) : cut.size ≤ Tree.sizes (first :: rest) := by
  obtain ⟨value, hvalue, h⟩ := Outcome.bind_eq_ok.1 h
  cases h
  have hsize := sizes_of_runTo (runToSemicolon_ok hvalue)
  simp only [Cut.size, Piece.size, Stmt.size]
  omega

/-- A cut off statement and the rest are no larger than the slice. -/
theorem cutFirst_size_le {first : Tree P} {rest : List (Tree P)} {cut : Cut P}
    (h : cutFirst first rest = .ok cut) : cut.size ≤ Tree.sizes (first :: rest) := by
  have hrest (h : cut.size ≤ Tree.sizes rest) : cut.size ≤ Tree.sizes (first :: rest) := by
    simp only [Tree.sizes_cons]
    omega
  unfold cutFirst at h
  repeat' split at h
  · exact hrest (cutDeclare_size_le h)
  · exact hrest (cutBranch_size_le h)
  · exact hrest (cutLoop_size_le h)
  · exact hrest (cutReturn_size_le h)
  · cases rest with
    | nil =>
      cases h
      simp [Cut.size, Piece.size, Stmt.size]
    | cons second rest =>
      simp only [cutPlain] at h
      split at h
      · have := cutAssign_size_le h
        simp only [Tree.sizes_cons]
        omega
      · exact cutExpression_size_le h

/-! ## Outlines -/

/-- The statements of a slice are no larger than the slice. -/
theorem ofTrees_sizes_le {trees : List (Tree P)} {stmts : List (Stmt P)}
    (h : ofTrees trees = .ok stmts) : Stmt.sizes stmts ≤ Tree.sizes trees := by
  induction trees using ofTrees.induct generalizing stmts with
  | case1 =>
    rw [ofTrees_nil] at h
    cases h
    simp
  | case2 first rest fault hcut =>
    cases (ofTrees_error hcut).symm.trans h
  | case3 first rest stmt after hcut ih =>
    have hsize := cutFirst_size_le hcut
    rw [ofTrees_plain hcut] at h
    obtain ⟨more, hmore, h⟩ := Outcome.bind_eq_ok.1 h
    cases h
    have := ih hmore
    simp only [Cut.size, Piece.size] at hsize
    simp only [Stmt.sizes_cons]
    omega
  | case4 first rest condition yes no span after hcut ihyes ihno ih =>
    have hsize := cutFirst_size_le hcut
    rw [ofTrees_branch hcut] at h
    obtain ⟨yesStmts, hyes, h⟩ := Outcome.bind_eq_ok.1 h
    obtain ⟨noStmts, hno, h⟩ := Outcome.bind_eq_ok.1 h
    obtain ⟨more, hmore, h⟩ := Outcome.bind_eq_ok.1 h
    cases h
    have h1 := ihyes hyes
    have h2 := ihno hno
    have h3 := ih hmore
    simp only [Cut.size, Piece.size] at hsize
    simp only [Stmt.sizes_cons, Stmt.size, Block.size_mk]
    omega
  | case5 first rest condition body span after hcut ihbody ih =>
    have hsize := cutFirst_size_le hcut
    rw [ofTrees_loop hcut] at h
    obtain ⟨bodyStmts, hbody, h⟩ := Outcome.bind_eq_ok.1 h
    obtain ⟨more, hmore, h⟩ := Outcome.bind_eq_ok.1 h
    cases h
    have h1 := ihbody hbody
    have h2 := ih hmore
    simp only [Cut.size, Piece.size] at hsize
    simp only [Stmt.sizes_cons, Stmt.size, Block.size_mk]
    omega

/-- An outlined region is larger than its slice by at most one. -/
theorem ofRegion_size_le {region : Region P} {block : Block P} (h : ofRegion region = .ok block) :
    block.size ≤ 1 + Tree.sizes region.trees := by
  obtain ⟨stmts, hs, rfl⟩ := Outcome.map_eq_ok.1 h
  have := ofTrees_sizes_le hs
  simp only [Block.size_mk]
  omega

end Outline

end LetWhile
