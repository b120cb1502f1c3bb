import LetWhile.Program.Basic
import LetWhile.Text.Quoted

/-!
# The written form of programs

A program on one line. Statements end in semicolons and are separated by spaces. How an operator is
written with its operands is a parameter (`Expr.textBy`); programs are shown with operators as
functions that are applied to their operands (`Operator.callText`), so that no precedence is needed.
-/

namespace LetWhile

variable {P : Type}

/-- Texts separated by commas, in parentheses. -/
def argumentText (texts : List String) : String := "(" ++ ", ".intercalate texts ++ ")"

/-- The text of a block, in braces. -/
def bracedText (text : String) : String := "\x7b " ++ text ++ " \x7d"

/-- An operator applied to written operands as a function is. -/
def Operator.callText (op : Operator) (operands : List String) : String :=
  op.name ++ argumentText operands

/-- A callee as it is written, given how it is written as an expression: in parentheses, unless it is
a symbol. -/
def Expr.calleeText (callee : Expr P) (text : String) : String :=
  match callee with
  | .symbol .. => text
  | _ => "(" ++ text ++ ")"

mutual

/-- An expression as it is written, given how operators are. -/
def Expr.textBy (operation : Operator → List String → String) : Expr P → String
  | .boolean value _ => if value then "true" else "false"
  | .number value _ => toString value
  | .string value _ => Text.quoted value
  | .symbol name _ => name
  | .operation op args _ => operation op (Expr.textsBy operation args)
  | .call callee args _ =>
    callee.calleeText (callee.textBy operation) ++ argumentText (Expr.textsBy operation args)
  | .function params body _ =>
    argumentText params ++ " => " ++ bracedText (body.textBy operation)

/-- The written forms of a list of expressions. -/
def Expr.textsBy (operation : Operator → List String → String) : List (Expr P) → List String
  | [] => []
  | expr :: rest => expr.textBy operation :: Expr.textsBy operation rest

/-- A statement as it is written, given how operators are. -/
def Stmt.textBy (operation : Operator → List String → String) : Stmt P → String
  | .declare name type value _ =>
    "let " ++ name ++ ": " ++ type.text ++ " = " ++ value.textBy operation ++ ";"
  | .assign name value _ => name ++ " = " ++ value.textBy operation ++ ";"
  | .branch condition yes no _ =>
    "if (" ++ condition.textBy operation ++ ") " ++ bracedText (yes.textBy operation) ++ " else "
      ++ bracedText (no.textBy operation)
  | .loop condition body _ =>
    "while (" ++ condition.textBy operation ++ ") " ++ bracedText (body.textBy operation)
  | .returnValue value _ => "return " ++ value.textBy operation ++ ";"
  | .returnVoid _ => "return;"
  | .expression value _ => value.textBy operation ++ ";"

/-- The written forms of a list of statements. -/
def Stmt.textsBy (operation : Operator → List String → String) : List (Stmt P) → List String
  | [] => []
  | stmt :: rest => stmt.textBy operation :: Stmt.textsBy operation rest

/-- A block as it is written, without braces, given how operators are. -/
def Block.textBy (operation : Operator → List String → String) : Block P → String
  | .mk stmts _ => " ".intercalate (Stmt.textsBy operation stmts)

end

/-- An expression as it is shown. -/
def Expr.text (expr : Expr P) : String := expr.textBy Operator.callText

/-- A statement as it is shown. -/
def Stmt.text (stmt : Stmt P) : String := stmt.textBy Operator.callText

/-- A block as it is shown. -/
def Block.text (block : Block P) : String := block.textBy Operator.callText

end LetWhile
