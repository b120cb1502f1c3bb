import LetWhile.Text.CodePoints

/-!
# White space

The characters of the Unicode property `White_Space`. They separate tokens, and a line is shown
without those at its end.
-/

namespace LetWhile.Text

/-- The code points with the property `White_Space`. -/
def blankCodePoints : List (Nat × Nat) :=
  [(0x9, 0xd), (0x20, 0x20), (0x85, 0x85), (0xa0, 0xa0), (0x1680, 0x1680), (0x2000, 0x200a),
    (0x2028, 0x2029), (0x202f, 0x202f), (0x205f, 0x205f), (0x3000, 0x3000)]

/-- Whether a character is white space. -/
def isBlank (c : Char) : Bool :=
  inRanges c.toNat blankCodePoints

/-- A text without the white space at its end. -/
def dropBlanksEnd (cs : List Char) : List Char := (cs.reverse.dropWhile isBlank).reverse

end LetWhile.Text
