import LetWhile.Proofs.Access.Basic
import LetWhile.Proofs.Fault.Printed

/-!
# Reporting by offsets

The line of a fault is searched for with the offset at which each line starts, and is shown from the
byte offset at which its indentation ends. Both offsets are in range for every fault, also for one
that lies outside the text. What can be out of range is the width of a field: the report goes wrong
if and only if it breaks off (`Indexed.report_eq`).
-/

namespace LetWhile

namespace Indexed

open Text (LineOffset utf8Size lineOffsetFrom lineOffsetFrom_here lineOffsetFrom_later)

/-- Where an offset lies within lines of which the first has the given number and start, if it is
before the end of one. -/
def lineFrom (offset number start : Nat) : List (List Char) → Option (Option LineOffset)
  | [] => some none
  | line :: rest =>
    let stop := start + utf8Size line
    if start ≤ offset ∧ offset < stop then
      (difference offset start).map fun column => some ⟨number, line, column⟩
    else lineFrom offset (number + 1) stop rest

/-- Where a byte offset lies in a text. The end of the text belongs to its last line. -/
def lineOffset (text : List Char) (offset : Nat) : Option (Option LineOffset) :=
  let lines := Text.lines text
  if utf8Size text < offset then some none
  else (lineFrom offset 1 0 lines).map fun place? =>
    place?.or (lines.getLast?.map fun last => ⟨lines.length, last, utf8Size last⟩)

/-- The lines that show where in its text a fault lies. A field that is too wide is out of range. -/
def excerpt (place : LineOffset) : Option (List String) := do
  let number := toString place.number
  let bar ← field? ' ' (number.length + 2) "|"
  let shown ← textFrom place.text place.indent
  let caret ← field? '-' (place.dashes + 1) "^"
  return [bar, number ++ " | " ++ String.ofList (Text.dropBlanksEnd shown), bar ++ " " ++ caret]

/-- The lines that report a fault in a text that is called `file`. -/
def report (fault : Fault Position) (text file : String) : Option (List String) :=
  (lineOffset text.toList fault.pos.offset.toNat).bind fun place? =>
    let place := match place? with
      | some place => excerpt place
      | none => some ["   " ++ fault.cause.message]
    place.map fun place => fault.cause.headline :: ("-> " ++ file) :: place

/-! ## In range -/

/-- The line of an offset is found by starts of lines as it is by sizes. The distance from the start
is in range, since only lines that start before the offset are taken. -/
theorem lineFrom_eq {offset number start : Nat} {lines : List (List Char)} (hle : start ≤ offset) :
    lineFrom offset number start lines =
      some (if offset < start + utf8Size lines.flatten
        then lineOffsetFrom number (offset - start) lines else none) := by
  induction lines generalizing number start with
  | nil =>
    rw [if_neg (by simp [hle])]
    rfl
  | cons line rest ih =>
    rw [lineFrom, List.flatten_cons, Text.utf8Size_append]
    by_cases hline : offset < start + utf8Size line
    · rw [if_pos ⟨hle, hline⟩, if_pos (by omega), difference_of_le hle, Option.map_some,
        lineOffsetFrom_here (by omega)]
    · rw [if_neg (fun h => hline h.2), ih (by omega), Nat.add_assoc]
      split
      · rename_i hrest
        rw [lineOffsetFrom_later _ (by omega), Nat.sub_sub]
        rintro rfl
        simp at hrest
        omega
      · rfl

/-- The end of the last line belongs to it. -/
theorem lineOffsetFrom_end (number : Nat) (lines : List (List Char)) :
    lineOffsetFrom number (utf8Size lines.flatten) lines =
      lines.getLast?.map fun last => ⟨number + (lines.length - 1), last, utf8Size last⟩ := by
  induction lines generalizing number with
  | nil => rfl
  | cons line rest ih =>
    rw [List.flatten_cons, Text.utf8Size_append]
    cases rest with
    | nil => simp [lineOffsetFrom]
    | cons next more =>
      rw [lineOffsetFrom_later (List.cons_ne_nil _ _) (Nat.le_add_right _ _),
        Nat.add_sub_cancel_left, ih, List.getLast?_cons_cons, Nat.add_assoc]
      simp only [List.length_cons, Nat.add_sub_cancel, Nat.add_comm 1]

/-- An offset beyond the lines lies in none of them. -/
theorem lineOffsetFrom_of_lt {number offset : Nat} {lines : List (List Char)}
    (h : utf8Size lines.flatten < offset) : lineOffsetFrom number offset lines = none := by
  fun_induction lineOffsetFrom number offset lines with
  | case1 => rfl
  | case2 number offset line hline =>
    rw [List.flatten_singleton] at h
    omega
  | case3 => rfl
  | case4 number offset line rest _ hline =>
    rw [List.flatten_cons, Text.utf8Size_append] at h
    omega
  | case5 number offset line rest _ hline ih =>
    rw [List.flatten_cons, Text.utf8Size_append] at h
    exact ih (by omega)

/-- An offset is found in its line without going out of range. -/
theorem lineOffset_eq (text : List Char) (offset : Nat) :
    lineOffset text offset = some (Text.lineOffset? text offset) := by
  have hsize : utf8Size (Text.lines text).flatten = utf8Size text := by rw [Text.flatten_lines]
  unfold lineOffset Text.lineOffset?
  simp only
  rcases Nat.lt_trichotomy offset (utf8Size text) with hlt | rfl | hgt
  · have hne : text ≠ [] := fun h => by
      subst h
      exact absurd hlt (Nat.not_lt_zero _)
    obtain ⟨place, hplace, -⟩ := Text.lineOffset?_of_le hne (Nat.le_of_lt hlt)
    unfold Text.lineOffset? at hplace
    rw [if_neg (Nat.lt_asymm hlt), lineFrom_eq (Nat.zero_le _), if_pos (by omega), Nat.sub_zero,
      hplace]
    rfl
  · rw [if_neg (Nat.lt_irrefl _), lineFrom_eq (Nat.zero_le _), if_neg (by omega), ← hsize,
      lineOffsetFrom_end]
    cases Text.lines text with
    | nil => rfl
    | cons line rest => simp [Nat.add_comm]
  · rw [if_pos hgt, lineOffsetFrom_of_lt (by omega)]

/-- Each character of an indentation takes up one byte. -/
theorem utf8Size_of_isIndent (cs : List Char) (h : ∀ c ∈ cs, isIndent c = true) :
    utf8Size cs = cs.length := by
  refine Text.utf8Size_eq_length_iff.2 fun c hc => ?_
  have hindent := h c hc
  simp only [isIndent, Bool.or_eq_true, decide_eq_true_eq] at hindent
  rcases hindent with rfl | rfl <;> rfl

/-- A line is shown from the end of its indentation on. -/
theorem textFrom_indent (place : LineOffset) :
    textFrom place.text place.indent = some (place.text.drop place.indent) := by
  have hindent := utf8Size_of_isIndent (place.text.takeWhile isIndent)
    fun c hc => List.mem_takeWhile_imp hc
  have hsplit := textFrom_append (place.text.takeWhile isIndent) (place.text.dropWhile isIndent)
  rw [List.takeWhile_append_dropWhile, hindent, ← Lexeme.drop_run] at hsplit
  exact hsplit

/-- The lines of a place are in range if they can all be written. -/
theorem excerpt_eq (place : LineOffset) :
    excerpt place = (Printout.ofLines place.excerpt).whole? := by
  simp only [excerpt, LineOffset.excerpt, textFrom_indent]
  cases field? ' ' ((toString place.number).length + 2) "|" with
  | none => rfl
  | some bar => cases field? '-' (place.dashes + 1) "^" <;> rfl

/-- A fault is reported without going out of range exactly if the report does not break off. -/
theorem report_eq (fault : Fault Position) (text file : String) :
    report fault text file = (fault.report text file).whole? := by
  rw [report, lineOffset_eq, Option.bind_some, Fault.report, Printout.whole?_ofLines_some,
    Printout.whole?_ofLines_some, Option.map_map]
  cases Text.lineOffset? text.toList fault.pos.offset.toNat with
  | none => rfl
  | some place =>
    simp only
    rw [excerpt_eq]
    rfl

end Indexed

end LetWhile
