import LetWhile.Proofs.Outline.Shapes
import LetWhile.Proofs.Printing.Infix

/-!
# The trees of a block are cut into its statements

No tree of a type or an expression is one that statements are cut at (`Tree.Inner`), so a written
statement is cut off the slice it begins whatever follows, and the trees of a block are outlined as
its statements.
-/

namespace LetWhile

variable {P : Type}

/-! ## Inner trees -/

/-- A tree that nothing is cut at. -/
structure Tree.Inner (tree : Tree P) : Prop where
  comma : tree.isKind .comma = false
  semicolon : tree.isKind .semicolon = false
  equals : tree.isOperator "=" = false
  keyword : ∀ word, tree.isKind (.keyword word) = false

/-- Nothing is cut at a group. -/
theorem Tree.Inner.within (bracket : Bracket) (trees : List (Tree Unit)) :
    (Tree.within bracket trees).Inner :=
  ⟨rfl, rfl, rfl, fun _ => rfl⟩

/-- Nothing is cut at a name. -/
theorem Tree.Inner.identifier (name : String) : (Tree.placeless .identifier name).Inner :=
  ⟨rfl, rfl, rfl, fun _ => rfl⟩

/-- Nothing is cut at an operator of expressions. -/
theorem Tree.Inner.operator (op : Operator) : (Tree.placeless .operator op.symbol).Inner := by
  refine ⟨rfl, rfl, ?_, fun _ => rfl⟩
  cases op with
  | binary op => cases op <;> decide
  | prefixed op => cases op <;> decide

/-- Nothing is cut at the trees of a type. -/
theorem Ty.inner : ∀ {type : Ty}, ∀ tree ∈ type.trees, tree.Inner
  | Ty.name _ => by
    rw [Ty.trees, List.forall_mem_singleton]
    exact ⟨rfl, rfl, rfl, fun _ => rfl⟩
  | .function _ _ => by
    rw [Ty.trees, List.forall_mem_cons, List.forall_mem_cons]
    exact ⟨.within _ _, ⟨rfl, rfl, rfl, fun _ => rfl⟩, Ty.inner⟩

/-- A type has trees. -/
theorem Ty.trees_ne_nil (type : Ty) : type.trees ≠ [] := by
  cases type <;> simp [Ty.trees]

/-- Nothing is cut at the trees of an operation. -/
theorem Operator.inner (op : Operator) (parts : List (List (Tree Unit))) :
    ∀ tree ∈ op.trees parts, tree.Inner := by
  unfold Operator.trees
  split
  · rename_i op left right
    simpa using ⟨Tree.Inner.within _ _, Tree.Inner.operator (.binary op), Tree.Inner.within _ _⟩
  · rename_i op operand
    simpa using ⟨Tree.Inner.operator (.prefixed op), Tree.Inner.within _ _⟩
  · exact List.forall_mem_nil _

/-- Nothing is cut at the trees of an expression. -/
theorem Expr.inner (expr : Expr P) : ∀ tree ∈ expr.trees, tree.Inner := by
  cases expr with
  | operation op args => exact op.inner _
  | call callee args =>
    rw [Expr.trees, List.forall_mem_cons, List.forall_mem_singleton]
    refine ⟨?_, .within _ _⟩
    cases callee with
    | symbol name => exact .identifier name
    | _ => exact .within _ _
  | function params body =>
    simpa [Expr.trees] using
      ⟨Tree.Inner.within _ _, ⟨rfl, rfl, rfl, fun _ => rfl⟩, Tree.Inner.within _ _⟩
  | _ =>
    rw [Expr.trees, List.forall_mem_singleton]
    exact ⟨rfl, rfl, rfl, fun _ => rfl⟩

/-- No tree of an expression is a semicolon. -/
theorem Expr.semicolon_free (expr : Expr P) : ∀ tree ∈ expr.trees, tree.isKind .semicolon = false :=
  fun tree htree => (expr.inner tree htree).semicolon

/-- A well-formed expression has trees. -/
theorem Expr.trees_ne_nil {expr : Expr P} (h : expr.WellFormed) : expr.trees ≠ [] := by
  cases expr with
  | operation op args =>
    have harity := (Expr.length_allTrees args).trans h.1
    obtain ⟨o, left, right, rfl, hargs⟩ | ⟨o, operand, rfl, hargs⟩ := op.operands_cases harity
    · simp [Expr.trees, hargs, Operator.trees]
    · simp [Expr.trees, hargs, Operator.trees]
  | _ => simp [Expr.trees]

/-! ## Outlines -/

mutual

/-- The outline of a written statement. -/
def Stmt.outline : Stmt P → Outline.Stmt Unit
  | .declare name type value _ => .declare name type.trees value.trees ⟨(), ()⟩
  | .assign name value _ => .assign name value.trees ⟨(), ()⟩
  | .branch condition yes no _ =>
    .branch ⟨condition.trees, ⟨(), ()⟩⟩ yes.outline no.outline ⟨(), ()⟩
  | .loop condition body _ => .loop ⟨condition.trees, ⟨(), ()⟩⟩ body.outline ⟨(), ()⟩
  | .returnValue value _ => .returnValue value.trees ⟨(), ()⟩
  | .returnVoid _ => .returnVoid ⟨(), ()⟩
  | .expression value _ => .expression value.trees ⟨(), ()⟩

/-- The outlines of a list of written statements. -/
def Stmt.outlines : List (Stmt P) → List (Outline.Stmt Unit)
  | [] => []
  | stmt :: rest => stmt.outline :: Stmt.outlines rest

/-- The outline of a written block. -/
def Block.outline : Block P → Outline.Block Unit
  | .mk stmts _ => .mk (Stmt.outlines stmts) ⟨(), ()⟩

end

/-- A token without a place is a token of its kind and text. -/
theorem Tree.IsToken.placeless (kind : Kind) (text : String) :
    (Tree.placeless kind text).IsToken kind text :=
  ⟨⟨(), ()⟩, rfl⟩

/-- A block is its statements, as there is one span only. -/
theorem Block.mk_outline (block : Block P) :
    Outline.Block.mk block.outline.stmts ⟨(), ()⟩ = block.outline := by
  cases block with
  | mk stmts span => rfl

mutual

/-- A written statement is outlined in front of whatever follows it. -/
theorem Stmt.ofTrees_append : ∀ {stmt : Stmt P}, stmt.WellFormed → ∀ after,
    Outline.ofTrees (stmt.trees ++ after) = (do
      let stmts ← Outline.ofTrees after
      .ok (stmt.outline :: stmts))
  | .declare name type value _, h, after => by
    have := Outline.cutFirst_of_declare (.placeless _ _) value.semicolon_free (.placeless _ _)
      (.placeless .identifier name) (.placeless _ _) (.placeless _ _)
      (fun tree htree => (type.inner tree htree).equals) after
    simpa [Stmt.trees, Stmt.outline] using Outline.ofTrees_plain this
  | .assign name value _, h, after => by
    have := Outline.cutFirst_of_assign (.placeless _ _) value.semicolon_free
      (.placeless .identifier name) (.placeless _ _) after
    simpa [Stmt.trees, Stmt.outline] using Outline.ofTrees_plain this
  | .branch condition yes no _, h, after => by
    have := Outline.ofTrees_branch (Outline.cutFirst_of_branch ⟨condition.trees, ⟨(), ()⟩⟩
      ⟨yes.trees, ⟨(), ()⟩⟩ ⟨no.trees, ⟨(), ()⟩⟩ (.placeless _ _) (.placeless _ _) after)
    rw [Block.ofTrees_trees h.2.1, Block.ofTrees_trees h.2.2] at this
    rw [Stmt.outline, ← yes.mk_outline, ← no.mk_outline]
    exact this
  | .loop condition body _, h, after => by
    have := Outline.ofTrees_loop (Outline.cutFirst_of_loop ⟨condition.trees, ⟨(), ()⟩⟩
      ⟨body.trees, ⟨(), ()⟩⟩ (.placeless _ _) after)
    rw [Block.ofTrees_trees h.2] at this
    rw [Stmt.outline, ← body.mk_outline]
    exact this
  | .returnValue value _, h, after => by
    have := Outline.cutFirst_of_returnValue (.placeless _ _) value.semicolon_free (.placeless _ _)
      (value.trees_ne_nil h) after
    simpa [Stmt.trees, Stmt.outline] using Outline.ofTrees_plain this
  | .returnVoid _, h, after =>
    Outline.ofTrees_plain (Outline.cutFirst_of_returnVoid (.placeless _ _) (.placeless _ _) after)
  | .expression value _, h, after => by
    have hinner := value.inner
    obtain ⟨first, rest, heq⟩ := List.exists_cons_of_ne_nil (value.trees_ne_nil h)
    rw [heq, List.forall_mem_cons] at hinner
    have := Outline.cutFirst_of_expression (.placeless _ _) (heq ▸ value.semicolon_free)
      (fun word _ => hinner.1.keyword word)
      (fun second hsecond => (hinner.2 second (List.mem_of_head? hsecond)).equals) after
    simpa [Stmt.trees, Stmt.outline, heq] using Outline.ofTrees_plain this

/-- The trees of well-formed statements are outlined as them. -/
theorem Stmt.ofTrees_allTrees : ∀ {stmts : List (Stmt P)}, Stmt.AllWellFormed stmts →
    Outline.ofTrees (Stmt.allTrees stmts) = .ok (Stmt.outlines stmts)
  | [], _ => Outline.ofTrees_nil
  | stmt :: rest, h => by
    rw [Stmt.allTrees, Stmt.ofTrees_append h.1, Stmt.ofTrees_allTrees h.2]
    rfl

/-- The trees of a written block are outlined as its statements. -/
theorem Block.ofTrees_trees : ∀ {block : Block P}, block.WellFormed →
    Outline.ofTrees block.trees = .ok block.outline.stmts
  | .mk _ _, h => Stmt.ofTrees_allTrees h

end

/-- The trees of a well-formed block are outlined as it. -/
theorem Block.ofRegion_trees {block : Block P} (h : block.WellFormed) (span : Span Unit) :
    Outline.ofRegion ⟨block.trees, span⟩ = .ok block.outline := by
  rw [Outline.ofRegion, Block.ofTrees_trees h, ← block.mk_outline]
  rfl

end LetWhile
