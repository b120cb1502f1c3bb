/-!
# Decimal numerals

The integer that a decimal numeral stands for. A numeral is an optional sign followed by digits;
underscores may separate the digits, but none comes first.
-/

namespace LetWhile.Text

/-- The value of a run of digits that continues the number `value`. Underscores are passed over, and
any other character is refused. -/
def digitsFrom (value : Nat) : List Char → Option Nat
  | [] => some value
  | '_' :: rest => digitsFrom value rest
  | c :: rest => if c.isDigit then digitsFrom (10 * value + (c.toNat - '0'.toNat)) rest else none

/-- The value of a run of digits that begins with a digit. -/
def digits : List Char → Option Nat
  | [] | '_' :: _ => none
  | cs => digitsFrom 0 cs

/-- The value of a numeral with at most a plus sign. -/
def naturalOf : List Char → Option Nat
  | '+' :: rest => digits rest
  | cs => digits cs

/-- The integer that a numeral stands for. A minus sign is not followed by a plus sign. -/
def integerOf (s : String) : Option Int :=
  match s.toList with
  | '-' :: '+' :: _ => none
  | '-' :: rest => (naturalOf rest).map fun n => -(n : Int)
  | cs => (naturalOf cs).map Int.ofNat

end LetWhile.Text
