import LetWhile.Operator
import LetWhile.Tree.Basic

/-!
# Operator chains

A slice with binary operators is read by cutting it at all operators of the lowest power. An
operator at the front of the slice or directly after another operator is a prefix operator and no
place to cut; the others are called joints.
-/

namespace LetWhile

namespace Chain
variable {P : Type}

/-- The joint that a tree is, if any. `bound` says that an operator here would be a prefix
operator. -/
def joint? (bound : Bool) (tree : Tree P) : Option (Token P) :=
  if bound then none else tree.token? .operator

/-- The joints of a slice. -/
def joints (bound : Bool) : List (Tree P) → List (Token P)
  | [] => []
  | tree :: rest => (joint? bound tree).toList ++ joints (tree.isKind .operator) rest

/-- The binary operator that a token spells, if its power is the given one. -/
def operatorOf? (power : Nat) (token : Token P) : Option BinaryOp :=
  (BinaryOp.ofSymbol? token.text).filter fun op => op.power = power

/-- A joint that a slice is cut at, and the operand that follows it. -/
structure Link (P : Type) where
  op : BinaryOp
  span : Span P
  operand : List (Tree P)

/-- A slice cut at the joints of one power: the first operand and the links after it. -/
def cut (power : Nat) (bound : Bool) : List (Tree P) → List (Tree P) × List (Link P)
  | [] => ([], [])
  | tree :: rest =>
    let (operand, links) := cut power (tree.isKind .operator) rest
    match (joint? bound tree).bind fun token => (operatorOf? power token).map (·, token.span) with
    | some (op, span) => ([], ⟨op, span, operand⟩ :: links)
    | none => (tree :: operand, links)

/-- The lowest power of the binary operators among the joints. -/
def lowestPower? (joints : List (Token P)) : Option Nat :=
  (joints.filterMap fun token => (BinaryOp.ofSymbol? token.text).map BinaryOp.power).min?

end Chain

end LetWhile
