import LetWhile.Outline.OfTrees
import LetWhile.Proofs.Relocation.Trees

/-!
# Relocating outlines

Cutting statements off a slice and outlining it hand positions on (`Outline.ofRegion_relocate`).
-/

namespace LetWhile

variable {P Q : Type}

namespace Outline

open Outcome

/-! ## Outlines at another place -/

mutual

/-- An outlined statement at another place. -/
def Stmt.map (f : P → Q) : Stmt P → Stmt Q
  | .declare name type value span =>
    .declare name (type.map (Tree.map f)) (value.map (Tree.map f)) (span.map f)
  | .assign name value span => .assign name (value.map (Tree.map f)) (span.map f)
  | .branch condition yes no span =>
    .branch (condition.map f) (yes.map f) (no.map f) (span.map f)
  | .loop condition body span => .loop (condition.map f) (body.map f) (span.map f)
  | .returnValue value span => .returnValue (value.map (Tree.map f)) (span.map f)
  | .returnVoid span => .returnVoid (span.map f)
  | .expression value span => .expression (value.map (Tree.map f)) (span.map f)

/-- An outlined block at another place. -/
def Block.map (f : P → Q) : Block P → Block Q
  | .mk stmts span => .mk (Stmt.mapAll f stmts) (span.map f)

/-- Outlined statements at another place. -/
def Stmt.mapAll (f : P → Q) : List (Stmt P) → List (Stmt Q)
  | [] => []
  | stmt :: rest => stmt.map f :: Stmt.mapAll f rest

end

/-- Statements are moved one by one. -/
@[simp]
theorem Stmt.mapAll_eq_map (f : P → Q) (stmts : List (Stmt P)) :
    Stmt.mapAll f stmts = stmts.map (Stmt.map f) := by
  induction stmts with
  | nil => rfl
  | cons stmt rest ih => rw [Stmt.mapAll, ih, List.map_cons]

/-- A block is moved with its statements and its span. -/
@[simp]
theorem Block.map_mk (f : P → Q) (stmts : List (Stmt P)) (span : Span P) :
    (Block.mk stmts span).map f = .mk (stmts.map (Stmt.map f)) (span.map f) := by
  rw [Block.map, Stmt.mapAll_eq_map]

/-- A moved block of an outline has the moved span. -/
@[simp]
theorem Block.span_map (f : P → Q) (block : Block P) : (block.map f).span = block.span.map f := by
  cases block
  rw [Block.map_mk]
  rfl

/-- A piece at another place. -/
def Piece.map (f : P → Q) : Piece P → Piece Q
  | .plain stmt => .plain (stmt.map f)
  | .branch condition yes no span =>
    .branch (condition.map f) (yes.map f) (no.map f) (span.map f)
  | .loop condition body span => .loop (condition.map f) (body.map f) (span.map f)

/-- A cut at another place. -/
def Cut.map (f : P → Q) (cut : Cut P) : Cut Q := ⟨cut.piece.map f, cut.rest.map (Tree.map f)⟩

/-- A step at another place, with what was read moved by `g`. -/
def Step.map {α β : Type} (f : P → Q) (g : α → β) (step : Step P α) : Step Q β :=
  ⟨g step.value, step.tree.map f, step.rest.map (Tree.map f)⟩

/-- A run at another place. -/
def Run.map (f : P → Q) (run : Run P) : Run Q :=
  ⟨run.trees.map (Tree.map f), f run.stop, run.rest.map (Tree.map f)⟩

/-! ## Steps -/

/-- A tree that is not expected is a fault at the moved place, with the same text. -/
theorem unexpected_map (f : P → Q) (message : String) (last : Tree P) (found : Option (Tree P)) :
    (unexpected message last found).map f =
      unexpected message (last.map f) (found.map (Tree.map f)) := by
  cases found <;> simp [unexpected, Fault.map, Span.map]

/-- Asking for a tree comes to the moved step or the moved fault. -/
theorem next_relocate {α β : Type} {f : P → Q} {g : α → β} {read? : Tree P → Option α}
    {read?' : Tree Q → Option β} (h : ∀ tree, read?' (tree.map f) = (read? tree).map g)
    (message : String) (last : Tree P) (trees : List (Tree P)) :
    (next message read? last trees).relocate f (Step.map f g) =
      next message read?' (last.map f) (trees.map (Tree.map f)) := by
  cases trees with
  | nil => simp [next, unexpected_map]
  | cons tree rest =>
    rw [List.map_cons, next, next, h]
    cases read? tree with
    | none => simp [unexpected_map]
    | some value => rfl

/-- A run over moved trees stops at the same tree. -/
theorem runTo_map {f : P → Q} {ends : Tree P → Bool} {ends' : Tree Q → Bool}
    (h : ∀ tree, ends' (tree.map f) = ends tree) (trees : List (Tree P)) :
    runTo ends' (trees.map (Tree.map f)) = (runTo ends trees).map (Run.map f) := by
  induction trees with
  | nil => rfl
  | cons tree rest ih =>
    rw [List.map_cons, runTo, runTo, h, ih]
    split
    · simp [Run.map, Span.map]
    · cases runTo ends rest <;> rfl

/-- A run up to a semicolon comes to the moved run, or fails at the moved place. -/
theorem runToSemicolon_relocate (f : P → Q) (after : P) (trees : List (Tree P)) :
    (runToSemicolon after trees).relocate f (Run.map f) =
      runToSemicolon (f after) (trees.map (Tree.map f)) := by
  unfold runToSemicolon
  rw [runTo_map (Tree.isKind_map f .semicolon)]
  cases runTo (Tree.isKind .semicolon) trees with
  | none => simp [Fault.map]
  | some run => rfl

/-! ## Statements -/

/-- A declaration is cut off moved trees as the moved declaration. -/
theorem cutDeclare_relocate (f : P → Q) (first : Tree P) (rest : List (Tree P)) :
    (cutDeclare first rest).relocate f (Cut.map f) =
      cutDeclare (first.map f) (rest.map (Tree.map f)) := by
  refine relocate_bind (next_relocate (Tree.token?_map f .identifier) _ _ _) fun name =>
    relocate_bind (next_relocate (Tree.token?_map f .colon) _ _ _) fun colon => ?_
  simp only [Step.map, runTo_map (Tree.isOperator_map f "=")]
  cases runTo (Tree.isOperator "=") colon.rest with
  | none =>
    simp only [Option.map_none, relocate_error, unexpected_map]
    rw [List.getLastD_eq_getLast?, List.getLastD_eq_getLast?, List.getLast?_map]
    cases colon.rest.getLast? <;> rfl
  | some type =>
    refine relocate_bind (runToSemicolon_relocate f _ _) fun value => ?_
    simp [Cut.map, Piece.map, Stmt.map, Run.map, Span.map, Token.map]

/-- A branch is cut off moved trees as the moved branch. -/
theorem cutBranch_relocate (f : P → Q) (first : Tree P) (rest : List (Tree P)) :
    (cutBranch first rest).relocate f (Cut.map f) =
      cutBranch (first.map f) (rest.map (Tree.map f)) := by
  refine relocate_bind (next_relocate (Tree.region?_map f .paren) _ _ _) fun condition =>
    relocate_bind (next_relocate (Tree.region?_map f .brace) _ _ _) fun yes =>
      relocate_bind (next_relocate (Tree.token?_map f (.keyword .elseWord)) _ _ _) fun otherwise =>
        relocate_bind (next_relocate (Tree.region?_map f .brace) _ _ _) fun no => ?_
  simp [Cut.map, Piece.map, Step.map, Span.map, Span.through]

/-- A loop is cut off moved trees as the moved loop. -/
theorem cutLoop_relocate (f : P → Q) (first : Tree P) (rest : List (Tree P)) :
    (cutLoop first rest).relocate f (Cut.map f) =
      cutLoop (first.map f) (rest.map (Tree.map f)) := by
  refine relocate_bind (next_relocate (Tree.region?_map f .paren) _ _ _) fun condition =>
    relocate_bind (next_relocate (Tree.region?_map f .brace) _ _ _) fun body => ?_
  simp [Cut.map, Piece.map, Step.map, Span.map, Span.through]

/-- A return is cut off moved trees as the moved return. -/
theorem cutReturn_relocate (f : P → Q) (first : Tree P) (rest : List (Tree P)) :
    (cutReturn first rest).relocate f (Cut.map f) =
      cutReturn (first.map f) (rest.map (Tree.map f)) := by
  unfold cutReturn
  rw [Tree.span_map]
  refine relocate_bind (runToSemicolon_relocate f _ _) fun value => ?_
  simp only [Run.map]
  cases value.trees <;> simp [Cut.map, Piece.map, Stmt.map, Span.map]

/-- An assignment is cut off moved trees as the moved assignment. -/
theorem cutAssign_relocate (f : P → Q) (first equals : Tree P) (rest : List (Tree P)) :
    (cutAssign first equals rest).relocate f (Cut.map f) =
      cutAssign (first.map f) (equals.map f) (rest.map (Tree.map f)) := by
  unfold cutAssign
  rw [Tree.token?_map]
  cases first.token? .identifier with
  | none => simp [Fault.map, Span.map]
  | some target =>
    rw [Tree.span_map f equals]
    refine relocate_bind (runToSemicolon_relocate f _ _) fun value => ?_
    simp [Cut.map, Piece.map, Stmt.map, Run.map, Span.map, Token.map]

/-- An expression is cut off moved trees as the moved expression. -/
theorem cutExpression_relocate (f : P → Q) (first : Tree P) (rest : List (Tree P)) :
    (cutExpression first rest).relocate f (Cut.map f) =
      cutExpression (first.map f) (rest.map (Tree.map f)) := by
  unfold cutExpression
  rw [Tree.span_map, ← List.map_cons]
  refine relocate_bind (runToSemicolon_relocate f _ _) fun value => ?_
  simp [Cut.map, Piece.map, Stmt.map, Run.map, Span.map]

/-- Whatever its shape, a statement is cut off moved trees as the moved statement. -/
theorem cutFirst_relocate (f : P → Q) (first : Tree P) (rest : List (Tree P)) :
    (cutFirst first rest).relocate f (Cut.map f) =
      cutFirst (first.map f) (rest.map (Tree.map f)) := by
  unfold cutFirst
  simp only [Tree.isKind_map]
  split
  · exact cutDeclare_relocate f first rest
  · split
    · exact cutBranch_relocate f first rest
    · split
      · exact cutLoop_relocate f first rest
      · split
        · exact cutReturn_relocate f first rest
        · cases rest with
          | nil => simp [cutPlain, Cut.map, Piece.map, Stmt.map]
          | cons second rest =>
            simp only [List.map_cons, cutPlain, Tree.isOperator_map]
            split
            · exact cutAssign_relocate f first second rest
            · exact cutExpression_relocate f first (second :: rest)

/-! ## Blocks -/

/-- Moved trees are outlined as the moved statements, or with the moved fault. -/
theorem ofTrees_relocate (f : P → Q) (trees : List (Tree P)) :
    (ofTrees trees).relocate f (List.map (Stmt.map f)) = ofTrees (trees.map (Tree.map f)) := by
  induction trees using ofTrees.induct with
  | case1 =>
    rw [List.map_nil, ofTrees_nil, ofTrees_nil]
    rfl
  | case2 first rest fault hcut =>
    have hcut' := cutFirst_relocate f first rest
    rw [hcut] at hcut'
    rw [ofTrees_error hcut, List.map_cons, ofTrees_error hcut'.symm]
    rfl
  | case3 first rest stmt after hcut ih =>
    have hcut' := cutFirst_relocate f first rest
    rw [hcut] at hcut'
    rw [ofTrees_plain hcut, List.map_cons, ofTrees_plain hcut'.symm]
    exact relocate_bind ih fun stmts => rfl
  | case4 first rest condition yes no span after hcut ihyes ihno ih =>
    have hcut' := cutFirst_relocate f first rest
    rw [hcut] at hcut'
    rw [ofTrees_branch hcut, List.map_cons, ofTrees_branch hcut'.symm]
    exact relocate_bind ihyes fun yesStmts => relocate_bind ihno fun noStmts =>
      relocate_bind ih fun stmts => by simp [Stmt.map, Region.map]
  | case5 first rest condition body span after hcut ihbody ih =>
    have hcut' := cutFirst_relocate f first rest
    rw [hcut] at hcut'
    rw [ofTrees_loop hcut, List.map_cons, ofTrees_loop hcut'.symm]
    exact relocate_bind ihbody fun bodyStmts => relocate_bind ih fun stmts => by
      simp [Stmt.map, Region.map]

/-- Outlining hands positions on. -/
theorem ofRegion_relocate (f : P → Q) (region : Region P) :
    (ofRegion region).relocate f (Block.map f) = ofRegion (region.map f) := by
  unfold ofRegion
  exact relocate_map (ofTrees_relocate f region.trees) fun stmts => by simp [Region.map]

end Outline

end LetWhile
