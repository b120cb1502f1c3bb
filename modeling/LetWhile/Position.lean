/-!
# Positions

Everything read from a source text keeps the span it was read from. All that follows the scanner
only hands positions on, so the definitions are generic in the type of positions; a `Position`
proper is a byte offset in a named file.
-/

namespace LetWhile

/-- A byte offset in the UTF-8 text of a file. -/
structure Position where
  offset : UInt32
  file : String
deriving DecidableEq

/-- The position given to what was read from no text at all. -/
def Position.unknown : Position := ⟨0, "<null>"⟩

/-- A stretch of text: where it starts, and the position just past its end. -/
structure Span (P : Type) where
  start : P
  stop : P
deriving DecidableEq

namespace Span
variable {P Q : Type}

/-- The span that starts with the first and stops with the last. -/
def through (first last : Span P) : Span P := ⟨first.start, last.stop⟩

/-- A span with both its ends moved. -/
def map (f : P → Q) (span : Span P) : Span Q := ⟨f span.start, f span.stop⟩

end Span

end LetWhile
