import LetWhile.Program.Text
import LetWhile.Proofs.Printing.Forms

/-!
# Programs written with infix operators

A program is written as it is shown, but with operators between or before their operands, which are
put in parentheses (`Operator.infixText`). Beside the text stand the trees that it forms
(`Block.trees`). Not every program can be written: a name must not be a reserved word, a number has
no sign, a string literal holds only what can be quoted, and an operator has its number of operands
(`Block.WellFormed`).
-/

namespace LetWhile

variable {P : Type}

/-! ## Operators -/

namespace Operator

/-- The operands of an operator that has its number of them. -/
theorem operands_cases {α : Type} (op : Operator) {operands : List α}
    (h : operands.length = op.arity) :
    (∃ o left right, op = .binary o ∧ operands = [left, right]) ∨
      ∃ o operand, op = .prefixed o ∧ operands = [operand] := by
  cases op with
  | binary o =>
    obtain ⟨left, right, heq⟩ := List.length_eq_two.1 h
    exact .inl ⟨o, left, right, rfl, heq⟩
  | prefixed o =>
    obtain ⟨operand, heq⟩ := List.length_eq_one_iff.1 h
    exact .inr ⟨o, operand, rfl, heq⟩

/-- An operator between or before its operands in parentheses. With any other number of operands it
is written as a function. -/
def infixText : Operator → List String → String
  | binary op, [left, right] => "(" ++ left ++ ") " ++ op.symbol ++ " (" ++ right ++ ")"
  | prefixed op, [operand] => op.symbol ++ "(" ++ operand ++ ")"
  | op, operands => op.callText operands

/-- The trees of an operator with its operands, which has no trees with any other number of them. -/
def trees : Operator → List (List (Tree Unit)) → List (Tree Unit)
  | binary op, [left, right] =>
    [.within .paren left, .placeless .operator op.symbol, .within .paren right]
  | prefixed op, [operand] => [.placeless .operator op.symbol, .within .paren operand]
  | _, _ => []

end Operator

/-! ## What can be written -/

namespace Ty

mutual

/-- Names of types begin with a capital. -/
def WellFormed : Ty → Prop
  | name n => IsWord Char.isUpper n
  | function params result => AllWellFormed params ∧ result.WellFormed

/-- `WellFormed` over a list of types. -/
def AllWellFormed : List Ty → Prop
  | [] => True
  | t :: rest => t.WellFormed ∧ AllWellFormed rest

end

mutual

/-- The trees that a type is written as. -/
def trees : Ty → List (Tree Unit)
  | name n => [.placeless .typeName n]
  | function params result =>
    .within .paren (Tree.commas (allTrees params)) :: .placeless .arrow "->" :: result.trees

/-- The trees of each type of a list. -/
def allTrees : List Ty → List (List (Tree Unit))
  | [] => []
  | t :: rest => t.trees :: allTrees rest

end

end Ty

mutual

/-- An expression that can be written. -/
def Expr.WellFormed : Expr P → Prop
  | .boolean _ _ => True
  | .number value _ => 0 ≤ value
  | .string value _ => ∀ c ∈ value.toList, isPrintable c = true
  | .symbol name _ => IsName beginsIdentifier name
  | .operation op args _ => args.length = op.arity ∧ Expr.AllWellFormed args
  | .call callee args _ => callee.WellFormed ∧ Expr.AllWellFormed args
  | .function params body _ => (∀ name ∈ params, IsName beginsIdentifier name) ∧ body.WellFormed

/-- `WellFormed` over a list of expressions. -/
def Expr.AllWellFormed : List (Expr P) → Prop
  | [] => True
  | expr :: rest => expr.WellFormed ∧ Expr.AllWellFormed rest

/-- A statement that can be written. -/
def Stmt.WellFormed : Stmt P → Prop
  | .declare name type value _ =>
    IsName beginsIdentifier name ∧ type.WellFormed ∧ value.WellFormed
  | .assign name value _ => IsName beginsIdentifier name ∧ value.WellFormed
  | .branch condition yes no _ => condition.WellFormed ∧ yes.WellFormed ∧ no.WellFormed
  | .loop condition body _ => condition.WellFormed ∧ body.WellFormed
  | .returnValue value _ => value.WellFormed
  | .returnVoid _ => True
  | .expression value _ => value.WellFormed

/-- `WellFormed` over a list of statements. -/
def Stmt.AllWellFormed : List (Stmt P) → Prop
  | [] => True
  | stmt :: rest => stmt.WellFormed ∧ Stmt.AllWellFormed rest

/-- A block that can be written. -/
def Block.WellFormed : Block P → Prop
  | .mk stmts _ => Stmt.AllWellFormed stmts

end

/-! ## Trees -/

/-- The tree of a callee, given its trees as an expression. -/
def Expr.calleeTree (callee : Expr P) (trees : List (Tree Unit)) : Tree Unit :=
  match callee with
  | .symbol name _ => .placeless .identifier name
  | _ => .within .paren trees

/-- The trees of a parameter list. -/
def Tree.parameters (names : List String) : List (Tree Unit) :=
  Tree.commas (names.map fun name => [.placeless .identifier name])

mutual

/-- The trees that an expression is written as. -/
def Expr.trees : Expr P → List (Tree Unit)
  | .boolean value _ => [.placeless .boolean (if value then "true" else "false")]
  | .number value _ => [.placeless .number (toString value)]
  | .string value _ => [.placeless .string (Text.quoted value)]
  | .symbol name _ => [.placeless .identifier name]
  | .operation op args _ => op.trees (Expr.allTrees args)
  | .call callee args _ =>
    [callee.calleeTree callee.trees, .within .paren (Tree.commas (Expr.allTrees args))]
  | .function params body _ =>
    [.within .paren (Tree.parameters params), .placeless .lambdaArrow "=>",
      .within .brace body.trees]

/-- The trees of each expression of a list. -/
def Expr.allTrees : List (Expr P) → List (List (Tree Unit))
  | [] => []
  | expr :: rest => expr.trees :: Expr.allTrees rest

/-- The trees that a statement is written as. -/
def Stmt.trees : Stmt P → List (Tree Unit)
  | .declare name type value _ =>
    [.placeless (.keyword .letWord) "let", .placeless .identifier name, .placeless .colon ":"]
      ++ type.trees ++ .placeless .operator "=" :: value.trees ++ [.placeless .semicolon ";"]
  | .assign name value _ =>
    .placeless .identifier name :: .placeless .operator "=" :: value.trees
      ++ [.placeless .semicolon ";"]
  | .branch condition yes no _ =>
    [.placeless (.keyword .ifWord) "if", .within .paren condition.trees, .within .brace yes.trees,
      .placeless (.keyword .elseWord) "else", .within .brace no.trees]
  | .loop condition body _ =>
    [.placeless (.keyword .whileWord) "while", .within .paren condition.trees,
      .within .brace body.trees]
  | .returnValue value _ =>
    .placeless (.keyword .returnWord) "return" :: value.trees ++ [.placeless .semicolon ";"]
  | .returnVoid _ =>
    [.placeless (.keyword .returnWord) "return", .placeless .semicolon ";"]
  | .expression value _ => value.trees ++ [.placeless .semicolon ";"]

/-- The trees of the statements of a list, one after another. -/
def Stmt.allTrees : List (Stmt P) → List (Tree Unit)
  | [] => []
  | stmt :: rest => stmt.trees ++ Stmt.allTrees rest

/-- The trees that a block is written as. -/
def Block.trees : Block P → List (Tree Unit)
  | .mk stmts _ => Stmt.allTrees stmts

end

/-- There are as many slices of trees as expressions. -/
@[simp]
theorem Expr.length_allTrees (exprs : List (Expr P)) :
    (Expr.allTrees exprs).length = exprs.length := by
  induction exprs with
  | nil => rfl
  | cons expr rest ih => simp [Expr.allTrees, ih]

end LetWhile
