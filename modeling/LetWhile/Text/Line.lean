import LetWhile.Text.Utf8

/-!
# Lines

A line ends with its line feed. The line at a byte offset is the one that holds the byte, and the
end of a text belongs to its last line.
-/

namespace LetWhile.Text

/-- A text cut after each line feed. -/
def lines : List Char → List (List Char)
  | [] => []
  | c :: rest =>
    if c = '\n' then [c] :: lines rest
    else match lines rest with
      | [] => [[c]]
      | line :: more => (c :: line) :: more

/-- An offset within a line: the number of the line, counted from one, its text, and the byte offset
from its start. -/
structure LineOffset where
  number : Nat
  text : List Char
  column : Nat

/-- Where an offset lies within lines of which the first has the given number. -/
def lineOffsetFrom (number offset : Nat) : List (List Char) → Option LineOffset
  | [] => none
  | [line] => if offset ≤ utf8Size line then some ⟨number, line, offset⟩ else none
  | line :: rest =>
    if offset < utf8Size line then some ⟨number, line, offset⟩
    else lineOffsetFrom (number + 1) (offset - utf8Size line) rest

/-- Where a byte offset lies in a text. -/
def lineOffset? (text : List Char) (offset : Nat) : Option LineOffset :=
  lineOffsetFrom 1 offset (lines text)

end LetWhile.Text
