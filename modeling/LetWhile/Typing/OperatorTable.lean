import LetWhile.Operator
import LetWhile.Ty.Basic

/-!
# Types of operators

An operator either has one function type, or compares two values of any one type. An operator table
says which operators there are.
-/

namespace LetWhile

/-- How an operator is typed. -/
inductive OperatorType
  | fixed (params : List Ty) (result : Ty)
  | equality
deriving DecidableEq

/-- The operators that may be used, with their types. -/
abbrev OperatorTable := Operator → Option OperatorType

namespace OperatorTable

/-- The table without operators. -/
def empty : OperatorTable := fun _ => none

/-- The type of a binary operator of the language. -/
def binary : BinaryOp → OperatorType
  | .or | .and => .fixed [Ty.bool, Ty.bool] Ty.bool
  | .equals | .notEquals => .equality
  | .less | .greater | .lessEquals | .greaterEquals => .fixed [Ty.int, Ty.int] Ty.bool
  | .plus | .minus | .star | .slash | .percent => .fixed [Ty.int, Ty.int] Ty.int
  | .concat => .fixed [Ty.string, Ty.string] Ty.string

/-- The type of a prefix operator of the language. -/
def prefixed : PrefixOp → OperatorType
  | .not => .fixed [Ty.bool] Ty.bool
  | .negate => .fixed [Ty.int] Ty.int

/-- The operators of the language. -/
def builtin : OperatorTable
  | .binary op => some (binary op)
  | .prefixed op => some (prefixed op)

/-- The table with the entry of one operator replaced, or removed by `none`. -/
def set (table : OperatorTable) (op : Operator) (type? : Option OperatorType) : OperatorTable :=
  fun other => if other = op then type? else table other

end OperatorTable

end LetWhile
