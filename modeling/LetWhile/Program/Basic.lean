import LetWhile.Operator
import LetWhile.Position
import LetWhile.Ty.Basic

/-!
# Programs

A program is a block: a list of statements. Blocks also stand in branches, loops and function
literals, so expressions, statements and blocks are defined together. Every node has the span it was
read from.
-/

namespace LetWhile

mutual

/-- An expression. A function literal gives its parameters no types; these come from the type it is
used at. -/
inductive Expr (P : Type)
  | boolean (value : Bool) (span : Span P)
  | number (value : Int) (span : Span P)
  | string (value : String) (span : Span P)
  | symbol (name : String) (span : Span P)
  | operation (op : Operator) (args : List (Expr P)) (span : Span P)
  | call (callee : Expr P) (args : List (Expr P)) (span : Span P)
  | function (params : List String) (body : Block P) (span : Span P)

/-- A statement. -/
inductive Stmt (P : Type)
  | declare (name : String) (type : Ty) (value : Expr P) (span : Span P)
  | assign (name : String) (value : Expr P) (span : Span P)
  | branch (condition : Expr P) (yes no : Block P) (span : Span P)
  | loop (condition : Expr P) (body : Block P) (span : Span P)
  | returnValue (value : Expr P) (span : Span P)
  | returnVoid (span : Span P)
  | expression (value : Expr P) (span : Span P)

/-- A list of statements with a scope of its own. -/
inductive Block (P : Type)
  | mk (stmts : List (Stmt P)) (span : Span P)

end

variable {P : Type}

/-- Where an expression was read from. -/
def Expr.span : Expr P → Span P
  | boolean _ span | number _ span | string _ span | symbol _ span | operation _ _ span
  | call _ _ span | function _ _ span => span

/-- Where a statement was read from. -/
def Stmt.span : Stmt P → Span P
  | declare _ _ _ span | assign _ _ span | branch _ _ _ span | loop _ _ span
  | returnValue _ span | returnVoid span | expression _ span => span

/-- The statements of a block. -/
def Block.stmts : Block P → List (Stmt P)
  | mk stmts _ => stmts

/-- Where a block was read from. -/
def Block.span : Block P → Span P
  | mk _ span => span

end LetWhile
