/-!
# Sets of code points

The Unicode character database lists a property as closed ranges of code points.
-/

namespace LetWhile.Text

/-- Whether a code point lies in one of the closed ranges. -/
def inRanges (codePoint : Nat) (ranges : List (Nat × Nat)) : Bool :=
  ranges.any fun (first, last) => first ≤ codePoint && codePoint ≤ last

end LetWhile.Text
