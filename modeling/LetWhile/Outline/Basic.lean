import LetWhile.Tree.Basic

/-!
# Outlines

An outline is a block cut into statements. The shape of each statement is known, and the blocks
inside branches and loops are outlined too, but expressions and types are still slices of trees.
-/

namespace LetWhile

namespace Outline

mutual

/-- One statement, whose expressions and types are not yet read. -/
inductive Stmt (P : Type)
  | declare (name : String) (type value : List (Tree P)) (span : Span P)
  | assign (name : String) (value : List (Tree P)) (span : Span P)
  | branch (condition : Region P) (yes no : Block P) (span : Span P)
  | loop (condition : Region P) (body : Block P) (span : Span P)
  | returnValue (value : List (Tree P)) (span : Span P)
  | returnVoid (span : Span P)
  | expression (value : List (Tree P)) (span : Span P)

/-- The statements of a block. -/
inductive Block (P : Type)
  | mk (stmts : List (Stmt P)) (span : Span P)

end

variable {P : Type}

/-- The statements of an outlined block. -/
def Block.stmts : Block P → List (Stmt P)
  | mk stmts _ => stmts

/-- Where an outlined block was read from. -/
def Block.span : Block P → Span P
  | mk _ span => span

/-- Where an outlined statement was read from. -/
def Stmt.span : Stmt P → Span P
  | declare _ _ _ span | assign _ _ span | branch _ _ _ span | loop _ _ span
  | returnValue _ span | returnVoid span | expression _ span => span

end Outline

end LetWhile
