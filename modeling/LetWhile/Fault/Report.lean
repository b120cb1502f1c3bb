import LetWhile.Fault.Message
import LetWhile.Position
import LetWhile.Text.Blank
import LetWhile.Text.Line

/-!
# Fault reports

A fault is shown with the line that it points into and a caret under the place:

    Error: MissingSemicolon (Statements must end with `;`)
    -> final.lang
       |
    20 | let a = 4
       | ---------^

The line is shown without its indentation, and there is a dash for each byte between the indentation
and the place. A fault whose position lies outside the text is shown with its message instead of a
line.

The bars and the caret are written at the ends of fields that are as wide as it takes. No field is
wider than `widestField`: a line that needs a wider one cannot be written, and the report breaks off
in front of it.
-/

namespace LetWhile

/-! ## Printing line by line -/

/-- What is printed of some lines, and whether that is all of them. -/
structure Printout where
  lines : List String
  complete : Bool
deriving DecidableEq

namespace Printout

/-- Lines are printed up to the first that cannot be written. -/
def ofLines : List (Option String) → Printout
  | [] => ⟨[], true⟩
  | none :: _ => ⟨[], false⟩
  | some line :: rest =>
    let printout := ofLines rest
    ⟨line :: printout.lines, printout.complete⟩

/-- The lines of a printout from which none is missing. -/
def whole? (printout : Printout) : Option (List String) :=
  if printout.complete then some printout.lines else none

/-- There are lines from which none is missing exactly if the printout is complete. -/
theorem isSome_whole? (printout : Printout) :
    printout.whole?.isSome = printout.complete := by
  rw [whole?]
  cases printout.complete <;> rfl

/-- A printout is whole if all that follows its first line is. -/
theorem whole?_ofLines_some (line : String) (rest : List (Option String)) :
    (ofLines (some line :: rest)).whole? = (ofLines rest).whole?.map (line :: ·) := by
  rw [ofLines, whole?, whole?]
  cases (ofLines rest).complete <;> rfl

/-- Lines that can all be written are all printed. -/
theorem ofLines_map_some (lines : List String) : ofLines (lines.map some) = ⟨lines, true⟩ := by
  induction lines with
  | nil => rfl
  | cons line rest ih => rw [List.map_cons, ofLines, ih]

/-- Nothing is printed from the first line on that cannot be written. -/
theorem ofLines_append_none (lines : List String) (rest : List (Option String)) :
    ofLines (lines.map some ++ none :: rest) = ⟨lines, false⟩ := by
  induction lines with
  | nil => rfl
  | cons line lines ih => rw [List.map_cons, List.cons_append, ofLines, ih]

end Printout

/-! ## Fields -/

/-- How wide a field can be, in characters. -/
def widestField : Nat := 65535

/-- A text at the end of `width` characters, which are filled up in front of it. -/
def alignRight (fill : Char) (width : Nat) (text : String) : String :=
  String.ofList (List.replicate (width - text.length) fill) ++ text

/-- A text written at the end of a field, unless the field would be too wide. -/
def field? (fill : Char) (width : Nat) (text : String) : Option String :=
  if width ≤ widestField then some (alignRight fill width text) else none

/-! ## Reports -/

/-- Whether a character can indent a line. -/
def isIndent (c : Char) : Bool := c = ' ' || c = '\t'

namespace Text.LineOffset

/-- How many characters a line is indented by. -/
def indent (place : LineOffset) : Nat := (place.text.takeWhile isIndent).length

/-- How many dashes lead to the caret under a place. -/
def dashes (place : LineOffset) : Nat := place.column - place.indent

/-- The lines that show where in its text a fault lies, those that can be written. -/
def excerpt (place : LineOffset) : List (Option String) :=
  let number := toString place.number
  let bar? := field? ' ' (number.length + 2) "|"
  let shown := Text.dropBlanksEnd (place.text.drop place.indent)
  [bar?,
    some (number ++ " | " ++ String.ofList shown),
    do return (← bar?) ++ " " ++ (← field? '-' (place.dashes + 1) "^")]

end Text.LineOffset

/-- The first line of a report. -/
def Cause.headline (cause : Cause) : String :=
  match cause.tip? with
  | none => "Error: " ++ cause.name
  | some tip => "Error: " ++ cause.name ++ " (" ++ tip ++ ")"

/-- The report of a fault in a text that is called `file`. -/
def Fault.report (fault : Fault Position) (text file : String) : Printout :=
  let place := match Text.lineOffset? text.toList fault.pos.offset.toNat with
    | some place => place.excerpt
    | none => [some ("   " ++ fault.cause.message)]
  .ofLines (some fault.cause.headline :: some ("-> " ++ file) :: place)

end LetWhile
