import LetWhile.Fault.Report
import LetWhile.Proofs.Text.Places
import Mathlib.Data.Nat.Digits.Defs

/-!
# Where reports break off

The number of a line is short enough for its bars (`Text.LineOffset.bar_eq`), so it is only the
caret that can need a field that is too wide. A fault in a line is reported in full if fewer than
`widestField` dashes lead to its caret, and otherwise the report breaks off in front of the caret
(`Fault.report_of_place`).
-/

namespace LetWhile

namespace Text

/-- A text has at most as many lines as it takes bytes. -/
theorem length_lines_le (text : List Char) : (lines text).length ≤ utf8Size text := by
  induction text with
  | nil => exact Nat.le_refl _
  | cons c rest ih =>
    have hpos := c.utf8Size_pos
    rw [utf8Size_cons]
    unfold lines
    split
    · rw [List.length_cons]
      omega
    · split
      · rw [List.length_singleton]
        omega
      · rename_i line more hlines
        rw [hlines, List.length_cons] at ih
        rw [List.length_cons]
        omega

namespace LineOffset
variable {place : LineOffset} {offset : Nat} {text : List Char}

/-- The number of a line that an offset is in is at most the size of the text. -/
theorem number_le_size (h : lineOffset? text offset = some place) :
    place.number ≤ utf8Size text := by
  obtain ⟨above, below, hlines, hnumber, -, -⟩ := lineOffsetFrom_eq_some_iff.1 h
  have hlength := length_lines_le text
  rw [hlines, List.length_append, List.length_cons] at hlength
  omega

/-- The bars beside a line can be written. -/
theorem bar_eq (h : lineOffset? text offset = some place) (hsize : utf8Size text < 2 ^ 32) :
    field? ' ' ((toString place.number).length + 2) "|" =
      some (alignRight ' ' ((toString place.number).length + 2) "|") := by
  have hle := number_le_size h
  have hdigits : (toString place.number).length ≤ 10 :=
    Nat.repr_length place.number 10 (Nat.succ_pos 9) (by omega)
  refine if_pos ?_
  unfold widestField
  omega

end LineOffset

end Text

/-- The caret of a fault can be written: it is not too far from the indentation of its line. -/
def Fault.CaretFits (fault : Fault Position) (text : String) : Prop :=
  ∀ place, Text.lineOffset? text.toList fault.pos.offset.toNat = some place →
    place.dashes < widestField

/-- The line of a caret: a bar, and the dashes that lead to the caret. -/
def caretLine (bar : String) (dashes : Nat) : String :=
  bar ++ " " ++ (String.ofList (List.replicate dashes '-') ++ "^")

/-- A caret is written behind its dashes where there are not too many of them. -/
theorem field?_caret {dashes : Nat} (h : dashes < widestField) :
    field? '-' (dashes + 1) "^" = some (String.ofList (List.replicate dashes '-') ++ "^") :=
  if_pos h

/-- There is no caret where too many dashes lead to it. -/
theorem field?_caret_eq_none {dashes : Nat} (h : ¬ dashes < widestField) :
    field? '-' (dashes + 1) "^" = none :=
  if_neg h

/-- A fault in a line is reported with that line, and with the caret below it if the caret can be
written. -/
theorem Fault.report_of_place {fault : Fault Position} {text : String} {place : Text.LineOffset}
    (h : Text.lineOffset? text.toList fault.pos.offset.toNat = some place)
    (hsize : Text.utf8Size text.toList < 2 ^ 32) (name : String) :
    let number := toString place.number
    let bar := alignRight ' ' (number.length + 2) "|"
    let shown := [fault.cause.headline, "-> " ++ name, bar, number ++ " | " ++
      String.ofList (Text.dropBlanksEnd (place.text.dropWhile isIndent))]
    fault.report text name =
      if place.dashes < widestField then ⟨shown ++ [caretLine bar place.dashes], true⟩
      else ⟨shown, false⟩ := by
  intro number bar shown
  have hreport : fault.report text name =
      .ofLines (some fault.cause.headline :: some ("-> " ++ name) :: place.excerpt) := by
    rw [report, h]
  have hindent : place.text.drop place.indent = place.text.dropWhile isIndent :=
    Lexeme.drop_run isIndent place.text
  rw [hreport, Text.LineOffset.excerpt, Text.LineOffset.bar_eq h hsize, hindent]
  by_cases hfits : place.dashes < widestField
  · rw [if_pos hfits, field?_caret hfits]
    exact Printout.ofLines_map_some (shown ++ [caretLine bar place.dashes])
  · rw [if_neg hfits, field?_caret_eq_none hfits]
    exact Printout.ofLines_append_none shown []

/-- A report is complete if and only if its caret can be written. -/
theorem Fault.complete_report_iff {text : String} (hsize : Text.utf8Size text.toList < 2 ^ 32)
    (fault : Fault Position) (name : String) :
    (fault.report text name).complete = true ↔ fault.CaretFits text := by
  unfold CaretFits
  cases hplace : Text.lineOffset? text.toList fault.pos.offset.toNat with
  | none =>
    rw [report, hplace]
    exact iff_of_true rfl nofun
  | some place =>
    rw [fault.report_of_place hplace hsize name]
    by_cases hfits : place.dashes < widestField
    · rw [if_pos hfits]
      exact iff_of_true rfl fun _ h => Option.some.inj h ▸ hfits
    · rw [if_neg hfits]
      exact iff_of_false Bool.false_ne_true fun h => hfits (h place rfl)

end LetWhile
