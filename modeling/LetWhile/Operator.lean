/-!
# Operators

The built-in operators, their symbols and how tightly they bind. `-` is both a binary and a prefix
operator, so the two families are told apart by type.
-/

namespace LetWhile

/-- An operator written between its operands. -/
inductive BinaryOp
  | or
  | and
  | equals
  | notEquals
  | less
  | greater
  | lessEquals
  | greaterEquals
  | plus
  | minus
  | star
  | slash
  | percent
  | concat
deriving DecidableEq

/-- An operator written before its operand. -/
inductive PrefixOp
  | not
  | negate
deriving DecidableEq

namespace BinaryOp

/-- All binary operators. -/
def all : List BinaryOp :=
  [or, and, equals, notEquals, less, greater, lessEquals, greaterEquals,
    plus, minus, star, slash, percent, concat]

/-- How a binary operator is written. -/
def symbol : BinaryOp → String
  | or => "||"
  | and => "&&"
  | equals => "=="
  | notEquals => "!="
  | less => "<"
  | greater => ">"
  | lessEquals => "<="
  | greaterEquals => ">="
  | plus => "+"
  | minus => "-"
  | star => "*"
  | slash => "/"
  | percent => "%"
  | concat => "++"

/-- The binary operator that a text spells. -/
def ofSymbol? (text : String) : Option BinaryOp :=
  all.find? fun op => op.symbol == text

/-- The binding power of a binary operator: the higher, the tighter. -/
def power : BinaryOp → Nat
  | or | and => 10
  | equals | notEquals | less | greater | lessEquals | greaterEquals => 20
  | plus | minus | concat => 30
  | star | slash | percent => 40

theorem ofSymbol?_symbol (op : BinaryOp) : ofSymbol? op.symbol = some op := by
  cases op <;> decide

theorem symbol_of_ofSymbol? {text : String} {op : BinaryOp} (h : ofSymbol? text = some op) :
    op.symbol = text := by
  simpa using List.find?_some h

end BinaryOp

namespace PrefixOp

/-- All prefix operators. -/
def all : List PrefixOp := [not, negate]

/-- How a prefix operator is written. -/
def symbol : PrefixOp → String
  | not => "!"
  | negate => "-"

/-- The prefix operator that a text spells. -/
def ofSymbol? (text : String) : Option PrefixOp :=
  all.find? fun op => op.symbol == text

theorem ofSymbol?_symbol (op : PrefixOp) : ofSymbol? op.symbol = some op := by
  cases op <;> decide

theorem symbol_of_ofSymbol? {text : String} {op : PrefixOp} (h : ofSymbol? text = some op) :
    op.symbol = text := by
  simpa using List.find?_some h

end PrefixOp

/-- A built-in operator of either family. -/
inductive Operator
  | binary (op : BinaryOp)
  | prefixed (op : PrefixOp)
deriving DecidableEq

namespace Operator

/-- How an operator is written. -/
def symbol : Operator → String
  | binary op => op.symbol
  | prefixed op => op.symbol

/-- The name of an operator where it stands for a function, as in `operator+`. -/
def name (op : Operator) : String := "operator" ++ op.symbol

/-- How many operands an operator has. -/
def arity : Operator → Nat
  | binary _ => 2
  | prefixed _ => 1

end Operator

end LetWhile
