import LetWhile.Proofs.Outline.Assembly
import LetWhile.Proofs.Tree.Laid

/-!
# Outlines laid out in a text

Where the trees of a block are laid out in a text, its statements are too: each stands within the
block behind those before it, and its slices and blocks stand within it in the order in which they
are read (`Outline.ofRegion_laid`).
-/

namespace LetWhile

open LetWhile.Span (InOrder)

/-- Trees in a text lie in the span that runs from the first of them to the last. -/
theorem Tree.LaidIn.spanned {start stop : Nat} {trees : List (Tree Nat)} {span : Span Nat}
    (h : LaidIn start trees stop) (hspan : Spanned span trees) :
    LaidIn span.start trees span.stop ∧ start ≤ span.start ∧ span.start < span.stop ∧
      span.stop ≤ stop := by
  obtain ⟨first, last, hfirst, hlast, rfl⟩ := hspan
  obtain ⟨hinOrder, hends⟩ := h.inOrder.through
    (by rw [List.head?_map, hfirst]; rfl) (by rw [List.getLast?_map, hlast]; rfl)
  exact ⟨⟨hinOrder, h.laid⟩, hends⟩

namespace Outline

mutual

/-- The slices and the blocks of a statement stand within its span, one after another. -/
def Stmt.Laid : Stmt Nat → Prop
  | .declare _ _ value span | .assign _ value span | .returnValue value span
  | .expression value span => Tree.LaidIn span.start value span.stop
  | .branch condition yes no span =>
    InOrder span.start [condition.span, yes.span, no.span] span.stop ∧
      Tree.LaidIn condition.span.start condition.trees condition.span.stop ∧ yes.Laid ∧ no.Laid
  | .loop condition body span =>
    InOrder span.start [condition.span, body.span] span.stop ∧
      Tree.LaidIn condition.span.start condition.trees condition.span.stop ∧ body.Laid
  | .returnVoid _ => True

/-- The statements of a block stand within its span, one after another. -/
def Block.Laid : Block Nat → Prop
  | .mk stmts span => InOrder span.start (stmts.map Stmt.span) span.stop ∧ Stmt.AllLaid stmts

/-- `Stmt.Laid` over a list of statements. -/
def Stmt.AllLaid : List (Stmt Nat) → Prop
  | [] => True
  | stmt :: rest => stmt.Laid ∧ Stmt.AllLaid rest

end

/-- Statements are laid out if each of them is. -/
theorem Stmt.allLaid_iff {stmts : List (Stmt Nat)} :
    Stmt.AllLaid stmts ↔ ∀ stmt ∈ stmts, stmt.Laid := by
  induction stmts with
  | nil => simp [Stmt.AllLaid]
  | cons stmt rest ih => simp [Stmt.AllLaid, ih]

-- The induction is on how the statements are put together from the trees.
mutual

/-- A statement is laid out if the trees that it is put together from are. -/
theorem Assembles.laid : ∀ {stmt : Stmt Nat} {trees : List (Tree Nat)},
    Assembles Tree.Spanned stmt trees → Tree.LaidIn stmt.span.start trees stmt.span.stop → stmt.Laid
  | _, _, .declare .., h => h.of_infix declared_isInfix
  | _, _, .assign .., h => h.of_infix (List.infix_append' [_, _] _ _)
  | _, _, .branch _ _ hyes hno, h => by
    obtain ⟨hstart, hfirst, -, h⟩ := Tree.LaidIn.cons_iff.1 h
    obtain ⟨hcondition, hproper, hinside, h⟩ := Tree.LaidIn.cons_iff.1 h
    obtain ⟨hyesStart, hyesProper, hyesTrees, h⟩ := Tree.LaidIn.cons_iff.1 h
    obtain ⟨hotherwise, hotherProper, -, h⟩ := Tree.LaidIn.cons_iff.1 h
    obtain ⟨hnoStart, hnoProper, hnoTrees, h⟩ := Tree.LaidIn.cons_iff.1 h
    have hbefore := Nat.le_trans hstart (Nat.le_trans (Nat.le_of_lt hfirst) hcondition)
    have hbetween := Nat.le_trans hotherwise (Nat.le_trans (Nat.le_of_lt hotherProper) hnoStart)
    exact ⟨⟨hbefore, hproper, hyesStart, hyesProper, hbetween, hnoProper, h.inOrder⟩,
      .of_group hinside, hyes.laid (.of_group hyesTrees), hno.laid (.of_group hnoTrees)⟩
  | _, _, .loop _ hbody, h => by
    obtain ⟨hstart, hfirst, -, h⟩ := Tree.LaidIn.cons_iff.1 h
    obtain ⟨hcondition, hproper, hinside, h⟩ := Tree.LaidIn.cons_iff.1 h
    obtain ⟨hbodyStart, hbodyProper, hbodyTrees, h⟩ := Tree.LaidIn.cons_iff.1 h
    have hbefore := Nat.le_trans hstart (Nat.le_trans (Nat.le_of_lt hfirst) hcondition)
    exact ⟨⟨hbefore, hproper, hbodyStart, hbodyProper, h.inOrder⟩, .of_group hinside,
      hbody.laid (.of_group hbodyTrees)⟩
  | _, _, .returnValue .., h => h.of_infix (List.infix_append' [_] _ _)
  | _, _, .returnVoid .., _ => trivial
  | _, _, .expression .., h => h.of_infix (List.prefix_append _ _).isInfix

/-- Statements are laid out one after another if the trees that they are put together from are. -/
theorem AssemblesAll.laid : ∀ {stmts : List (Stmt Nat)} {trees : List (Tree Nat)} {start stop : Nat},
    AssemblesAll Tree.Spanned stmts trees → Tree.LaidIn start trees stop →
      InOrder start (stmts.map Stmt.span) stop ∧ Stmt.AllLaid stmts
  | _, _, _, _, .nil, h => ⟨h.inOrder, trivial⟩
  | _, _, _, _, .lone hspan, h => by
    obtain ⟨hlaid, hstart, hproper, hstop⟩ := h.spanned hspan
    exact ⟨⟨hstart, hproper, hstop⟩, hlaid, trivial⟩
  | _, _, _, _, .cons hstmt hspan hrest, h => by
    obtain ⟨mid, htrees, hmore⟩ := Tree.LaidIn.append_iff.1 h
    obtain ⟨hlaid, hstart, hproper, hstop⟩ := htrees.spanned hspan
    obtain ⟨hinOrder, hall⟩ := hrest.laid (hmore.mono hstop (Nat.le_refl _))
    exact ⟨⟨hstart, hproper, hinOrder⟩, hstmt.laid hlaid, hall⟩

end

/-- An outlined region is laid out if the region is. -/
theorem ofRegion_laid {region : Region Nat} {block : Block Nat}
    (hlaid : Tree.LaidIn region.span.start region.trees region.span.stop)
    (h : ofRegion region = .ok block) : block.Laid ∧ block.span = region.span := by
  obtain ⟨stmts, hstmts, rfl⟩ := Outcome.map_eq_ok.1 h
  exact ⟨(assemblesAll_of_ofTrees hlaid.laid.allSpelled hstmts).laid hlaid, rfl⟩

end Outline

end LetWhile
