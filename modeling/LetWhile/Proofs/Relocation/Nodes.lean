import LetWhile.Proofs.Program.Depth
import LetWhile.Proofs.Program.Nodes
import LetWhile.Proofs.Program.Spans

/-!
# Relocating parts of a program

The expressions in a program move with it, and what a slice spells moves with the slice. An
expression whose spans nest is moved by what happens to the positions between its ends
(`Expr.SpansNest.map_congr`).
-/

namespace LetWhile

variable {P Q : Type}

open LetWhile.Span (InOrder)

/-! ## The expressions in a program -/

section
variable (f : P → Q)

mutual

/-- The nodes of a moved expression are the moved nodes. -/
theorem Expr.nodes_map : ∀ expr : Expr P, (expr.map f).nodes = expr.nodes.map (Expr.map f)
  | .boolean .. | .number .. | .string .. | .symbol .. => by simp [Expr.map, Expr.nodes]
  | .operation op args span => by simp [Expr.map, Expr.nodes, ← Expr.allNodes_map args]
  | .call callee args span => by
    simp [Expr.map, Expr.nodes, Expr.nodes_map callee, ← Expr.allNodes_map args]
  | .function params body span => by simp [Expr.map, Expr.nodes, Block.nodes_map body]

/-- The nodes of moved expressions are the moved nodes. -/
theorem Expr.allNodes_map : ∀ exprs : List (Expr P),
    Expr.allNodes (exprs.map (Expr.map f)) = (Expr.allNodes exprs).map (Expr.map f)
  | [] => rfl
  | expr :: rest => by simp [Expr.allNodes, Expr.nodes_map expr, Expr.allNodes_map rest]

/-- The nodes of a moved statement are the moved nodes. -/
theorem Stmt.nodes_map : ∀ stmt : Stmt P, (stmt.map f).nodes = stmt.nodes.map (Expr.map f)
  | .declare _ _ value _ | .assign _ value _ | .returnValue value _ | .expression value _ => by
    simp [Stmt.map, Stmt.nodes, Expr.nodes_map value]
  | .branch condition yes no _ => by
    simp [Stmt.map, Stmt.nodes, Expr.nodes_map condition, Block.nodes_map yes, Block.nodes_map no]
  | .loop condition body _ => by
    simp [Stmt.map, Stmt.nodes, Expr.nodes_map condition, Block.nodes_map body]
  | .returnVoid _ => by simp [Stmt.map, Stmt.nodes]

/-- The nodes of moved statements are the moved nodes. -/
theorem Stmt.allNodes_map : ∀ stmts : List (Stmt P),
    Stmt.allNodes (stmts.map (Stmt.map f)) = (Stmt.allNodes stmts).map (Expr.map f)
  | [] => rfl
  | stmt :: rest => by simp [Stmt.allNodes, Stmt.nodes_map stmt, Stmt.allNodes_map rest]

/-- The expressions in a program move with it. -/
theorem Block.nodes_map : ∀ block : Block P, (block.map f).nodes = block.nodes.map (Expr.map f)
  | .mk stmts span => by simp [Block.map, Block.nodes, Stmt.allNodes_map stmts]

end

end

/-! ## Slices -/

/-- What a slice spells moves with it. -/
theorem SpellsExpr.map {trees : List (Tree P)} {expr : Expr P} (h : SpellsExpr trees expr)
    (f : P → Q) : SpellsExpr (trees.map (Tree.map f)) (expr.map f) := by
  have hread := Expr.ofTrees_of_spells h (Nat.lt_succ_self _) expr.span.start
  have hmoved := (Reader.ofBudget_relocates f (Tree.sizes trees + 1) (Tree.sizes trees + 1)).expr
    expr.span.start trees
  rw [Reader.ofBudget] at hmoved
  simp only [hread, Outcome.relocate_ok] at hmoved
  exact ((Reader.ofBudget_decides _ _).expr _ _).yields _ hmoved.symm

/-! ## What lies in a span -/

section
variable {f g : Nat → Q} {size start stop : Nat}

namespace Span

/-- A span is moved alike by functions that agree between the offsets it lies between. -/
theorem map_congr (hfg : ∀ p, start ≤ p → p ≤ stop → f p = g p) {span : Span Nat}
    (h : InOrder start [span] stop) : span.map f = span.map g := by
  obtain ⟨hstart, hproper, hstop⟩ := h
  have hle := Nat.le_of_lt hproper
  rw [Span.map, Span.map, hfg _ hstart (Nat.le_trans hle hstop),
    hfg _ (Nat.le_trans hstart hle) hstop]

variable {span : Span Nat} {spans : List (Span Nat)}

/-- What stands within a span between two offsets stands between these. -/
theorem InOrder.within (h : InOrder span.start spans span.stop)
    (hspan : InOrder start [span] stop) : InOrder start spans stop := h.mono hspan.1 hspan.2.2

/-- Each of the spans that are in order lies between the offsets. -/
theorem InOrder.single (h : InOrder start spans stop) (hmem : span ∈ spans) :
    InOrder start [span] stop := h.of_mem hmem

/-- Spans in order are in order without the first. -/
theorem InOrder.tail (h : InOrder start (span :: spans) stop) : InOrder start spans stop :=
  h.2.2.mono (Nat.le_trans h.1 (Nat.le_of_lt h.2.1)) (Nat.le_refl _)

end Span

mutual

/-- Where an expression is moved depends only on where the positions around it are. -/
theorem Expr.SpansNest.map_congr (hfg : ∀ p, start ≤ p → p ≤ stop → f p = g p) :
    ∀ {expr : Expr Nat}, expr.SpansNest size → InOrder start [expr.span] stop →
      expr.map f = expr.map g
  | .boolean _ span, _, hspan | .number _ span, _, hspan | .string _ span, _, hspan
  | .symbol _ span, _, hspan => by
    have hsame : span.map f = span.map g := Span.map_congr hfg hspan
    rw [Expr.map, Expr.map, hsame]
  | .operation _ _ span, h, hspan => by
    have hsame : span.map f = span.map g := Span.map_congr hfg hspan
    rw [Expr.map, Expr.map, hsame, Expr.AllSpansNest.map_congr hfg h.2.2 (h.2.1.within hspan)]
  | .call _ _ span, h, hspan => by
    have hsame : span.map f = span.map g := Span.map_congr hfg hspan
    have hparts := h.2.1.within hspan
    rw [Expr.map, Expr.map, hsame, h.2.2.1.map_congr hfg (hparts.single (.head _)),
      Expr.AllSpansNest.map_congr hfg h.2.2.2 hparts.tail]
  | .function _ _ span, h, hspan => by
    have hsame : span.map f = span.map g := Span.map_congr hfg hspan
    rw [Expr.map, Expr.map, hsame, h.2.2.map_congr hfg (h.2.1.within hspan)]

/-- Expressions in order are moved alike by functions that agree between the offsets. -/
theorem Expr.AllSpansNest.map_congr (hfg : ∀ p, start ≤ p → p ≤ stop → f p = g p) :
    ∀ {exprs : List (Expr Nat)}, Expr.AllSpansNest size exprs →
      InOrder start (exprs.map Expr.span) stop → Expr.mapAll f exprs = Expr.mapAll g exprs
  | [], _, _ => rfl
  | expr :: rest, h, hspans => by
    rw [Expr.mapAll, Expr.mapAll, h.1.map_congr hfg (hspans.single (.head _)),
      Expr.AllSpansNest.map_congr hfg h.2 hspans.tail]

/-- A statement is moved alike by functions that agree between its offsets, as all spans in it lie
between them. -/
theorem Stmt.SpansNest.map_congr (hfg : ∀ p, start ≤ p → p ≤ stop → f p = g p) :
    ∀ {stmt : Stmt Nat}, stmt.SpansNest size → InOrder start [stmt.span] stop →
      stmt.map f = stmt.map g
  | .declare _ _ _ span, h, hspan | .assign _ _ span, h, hspan | .returnValue _ span, h, hspan
  | .expression _ span, h, hspan => by
    have hsame : span.map f = span.map g := Span.map_congr hfg hspan
    rw [Stmt.map, Stmt.map, hsame, h.2.2.map_congr hfg (h.2.1.within hspan)]
  | .branch _ _ _ span, h, hspan => by
    have hsame : span.map f = span.map g := Span.map_congr hfg hspan
    have hparts := h.2.1.within hspan
    rw [Stmt.map, Stmt.map, hsame, h.2.2.1.map_congr hfg (hparts.single (.head _)),
      h.2.2.2.1.map_congr hfg (hparts.single (.tail _ (.head _))),
      h.2.2.2.2.map_congr hfg (hparts.single (.tail _ (.tail _ (.head _))))]
  | .loop _ _ span, h, hspan => by
    have hsame : span.map f = span.map g := Span.map_congr hfg hspan
    have hparts := h.2.1.within hspan
    rw [Stmt.map, Stmt.map, hsame, h.2.2.1.map_congr hfg (hparts.single (.head _)),
      h.2.2.2.map_congr hfg (hparts.single (.tail _ (.head _)))]
  | .returnVoid span, _, hspan => by
    have hsame : span.map f = span.map g := Span.map_congr hfg hspan
    rw [Stmt.map, Stmt.map, hsame]

/-- Statements in order are moved alike by functions that agree between the offsets. -/
theorem Stmt.AllSpansNest.map_congr (hfg : ∀ p, start ≤ p → p ≤ stop → f p = g p) :
    ∀ {stmts : List (Stmt Nat)}, Stmt.AllSpansNest size stmts →
      InOrder start (stmts.map Stmt.span) stop → Stmt.mapAll f stmts = Stmt.mapAll g stmts
  | [], _, _ => rfl
  | stmt :: rest, h, hspans => by
    rw [Stmt.mapAll, Stmt.mapAll, h.1.map_congr hfg (hspans.single (.head _)),
      Stmt.AllSpansNest.map_congr hfg h.2 hspans.tail]

/-- A block is moved alike by functions that agree between its offsets. -/
theorem Block.SpansNest.map_congr (hfg : ∀ p, start ≤ p → p ≤ stop → f p = g p) :
    ∀ {block : Block Nat}, block.SpansNest size → InOrder start [block.span] stop →
      block.map f = block.map g
  | .mk _ span, h, hspan => by
    have hsame : span.map f = span.map g := Span.map_congr hfg hspan
    rw [Block.map, Block.map, hsame, Stmt.AllSpansNest.map_congr hfg h.2 (h.1.within hspan)]

end

end

end LetWhile
