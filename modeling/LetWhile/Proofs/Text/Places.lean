import LetWhile.Proofs.Scanning.Coverage
import LetWhile.Proofs.Text.Lines
import Mathlib.Algebra.GroupWithZero.Nat

/-!
# Offsets and places

A text is cut after its line feeds in one way (`Text.cutAfterNewlines_iff`). Looking up an offset
finds the lines in front of it (`Text.lineOffsetFrom_eq_some_iff`), so it undoes counting the bytes
up to a place in the lines: each offset up to the end of a text that is not empty has one place, and
no place has two offsets (`Text.offsets_placed`).
-/

namespace LetWhile.Text

/-! ## Cutting into lines -/

/-- Lines are what a text is cut into after each line feed: every line ends with the first line feed
in it, but for the last one, which is not empty if it has none. -/
inductive CutAfterNewlines : List Char → List (List Char) → Prop
  | nil : CutAfterNewlines [] []
  | last {line : List Char} : '\n' ∉ line → line ≠ [] → CutAfterNewlines line [line]
  | line {line rest : List Char} {lines : List (List Char)} : '\n' ∉ line →
      CutAfterNewlines rest lines →
      CutAfterNewlines (line ++ '\n' :: rest) ((line ++ ['\n']) :: lines)

/-- The lines of a text are cut as the relation says. -/
theorem cutAfterNewlines_lines (text : List Char) : CutAfterNewlines text (lines text) := by
  induction text with
  | nil => exact .nil
  | cons c rest ih =>
    unfold lines
    split
    · next hc =>
      subst hc
      have hnil : '\n' ∉ [] := List.not_mem_nil
      exact .line hnil ih
    · next hc =>
      -- The character goes in front of the first of the other lines, however that one ends.
      have hfront {line : List Char} (h : '\n' ∉ line) : '\n' ∉ c :: line :=
        List.not_mem_cons_of_ne_of_not_mem (Ne.symm hc) h
      generalize lines rest = pieces at ih ⊢
      cases ih with
      | nil => exact .last (hfront List.not_mem_nil) (List.cons_ne_nil _ _)
      | last hline _ => exact .last (hfront hline) (List.cons_ne_nil _ _)
      | line hline hrest => exact .line (hfront hline) hrest

/-- A text is cut after its line feeds in one way. -/
theorem cutAfterNewlines_iff {text : List Char} {pieces : List (List Char)} :
    CutAfterNewlines text pieces ↔ pieces = lines text := by
  refine ⟨fun h => ?_, fun h => h ▸ cutAfterNewlines_lines text⟩
  induction h with
  | nil => rfl
  | last hline hne => rw [lines_of_not_mem hline hne]
  | line hline _ ih => rw [lines_append_newline hline, ih]

/-! ## Lines around a place -/

/-- Lines around a place: those above it, its own and those below, with an offset that leads past
the lines above and its column. The end of a line is a place in it only if there is none below. -/
structure LineOffset.Between (place : LineOffset) (number offset : Nat)
    (above below : List (List Char)) : Prop where
  number : place.number = number + above.length
  offset : offset = utf8Size above.flatten + place.column
  column : place.column < utf8Size place.text ∨ below = [] ∧ place.column = utf8Size place.text

/-- A place that is found lies between lines above and below. -/
theorem exists_between {number offset : Nat} {lines : List (List Char)} {place : LineOffset}
    (h : lineOffsetFrom number offset lines = some place) :
    ∃ above below, lines = above ++ place.text :: below ∧
      place.Between number offset above below := by
  fun_induction lineOffsetFrom number offset lines with
  | case1 => cases h
  | case2 number offset line hline =>
    cases h
    refine ⟨[], [], rfl, rfl, (Nat.zero_add _).symm, ?_⟩
    exact (Nat.lt_or_eq_of_le hline).imp_right fun h => ⟨rfl, h⟩
  | case3 => cases h
  | case4 number offset line rest _ hline =>
    cases h
    exact ⟨[], rest, rfl, rfl, (Nat.zero_add _).symm, .inl hline⟩
  | case5 number offset line rest _ hline ih =>
    obtain ⟨above, below, rfl, hnumber, hoffset, hcolumn⟩ := ih h
    refine ⟨line :: above, below, rfl, ?_, ?_, hcolumn⟩
    · rw [hnumber, List.length_cons]
      omega
    · rw [List.flatten_cons, utf8Size_append]
      omega

/-- A place between lines above and below is the one that is found. -/
theorem LineOffset.Between.lineOffsetFrom_eq {number offset : Nat} {place : LineOffset}
    {above below : List (List Char)} (h : place.Between number offset above below) :
    lineOffsetFrom number offset (above ++ place.text :: below) = some place := by
  induction above generalizing number offset with
  | nil =>
    obtain ⟨rfl, hoffset, hcolumn⟩ := h
    rw [List.flatten_nil, utf8Size_nil, Nat.zero_add] at hoffset
    subst hoffset
    rcases hcolumn with hcolumn | ⟨rfl, hcolumn⟩
    · exact lineOffsetFrom_here hcolumn
    · rw [List.nil_append, lineOffsetFrom, if_pos (Nat.le_of_eq hcolumn)]
  | cons line above ih =>
    obtain ⟨hnumber, hoffset, hcolumn⟩ := h
    rw [List.flatten_cons, utf8Size_append] at hoffset
    rw [List.length_cons] at hnumber
    have hne : above ++ place.text :: below ≠ [] :=
      List.append_ne_nil_of_right_ne_nil _ (List.cons_ne_nil _ _)
    rw [List.cons_append, lineOffsetFrom_later hne (by omega)]
    exact ih ⟨by omega, by omega, hcolumn⟩

/-- Looking up an offset finds the place that has the offset of all that is in front of it. -/
theorem lineOffsetFrom_eq_some_iff {number offset : Nat} {lines : List (List Char)}
    {place : LineOffset} : lineOffsetFrom number offset lines = some place ↔
      ∃ above below, lines = above ++ place.text :: below ∧
        place.Between number offset above below :=
  ⟨exists_between, fun ⟨_, _, hlines, h⟩ => hlines ▸ h.lineOffsetFrom_eq⟩

/-- No place is found exactly for offsets beyond the lines, and where there are none. -/
theorem lineOffsetFrom_eq_none_iff {number offset : Nat} {lines : List (List Char)} :
    lineOffsetFrom number offset lines = none ↔ utf8Size lines.flatten < offset ∨ lines = [] := by
  refine ⟨fun h => ?_, fun h => ?_⟩
  · by_contra hnot
    obtain ⟨hle, hne⟩ := not_or.1 hnot
    have hplaced : ∃ place, lineOffsetFrom number offset lines = some place ∧
        place.Within number offset lines := lineOffsetFrom_of_le hne (Nat.le_of_not_lt hle)
    obtain ⟨place, hplace, -⟩ := hplaced
    cases h.symm.trans hplace
  · refine Option.eq_none_iff_forall_ne_some.2 fun place hplace => ?_
    obtain ⟨above, below, rfl, -, hoffset, hcolumn⟩ := lineOffsetFrom_eq_some_iff.1 hplace
    rcases h with h | h
    · rw [List.flatten_append, List.flatten_cons, utf8Size_append, utf8Size_append] at h
      omega
    · exact List.append_ne_nil_of_right_ne_nil _ (List.cons_ne_nil _ _) h

/-! ## Places in a text -/

/-- A place is that of an offset in a text: it is in the line with its number, counted from one, the
sizes of the lines before and the column make up the offset, and the column is before the end of the
line, except that the end of the text is at the end of the last line. -/
structure LineOffset.Locates (place : LineOffset) (source : String) (offset : Nat) : Prop where
  number_pos : 0 < place.number
  text : (lines source.toList)[place.number - 1]? = some place.text
  bytes : (((lines source.toList).take (place.number - 1)).map utf8Size).sum + place.column =
    offset
  inside : offset < source.utf8ByteSize → place.column < utf8Size place.text
  atEnd : source.utf8ByteSize ≤ offset →
    place.number = (lines source.toList).length ∧ place.column = utf8Size place.text

/-- The sizes of lines add up to that of the text they make up. -/
theorem sum_map_utf8Size (lines : List (List Char)) :
    (lines.map utf8Size).sum = utf8Size lines.flatten := by
  induction lines with
  | nil => rfl
  | cons line rest ih =>
    rw [List.map_cons, List.sum_cons, ih, List.flatten_cons, utf8Size_append]

/-- A text takes the bytes of a line and of those above and below. -/
theorem utf8ByteSize_eq_of_lines {text : String} {above below : List (List Char)}
    {line : List Char} (h : lines text.toList = above ++ line :: below) :
    text.utf8ByteSize = utf8Size above.flatten + utf8Size line + utf8Size below.flatten := by
  rw [utf8ByteSize_eq, ← flatten_lines text.toList, h, List.flatten_append, List.flatten_cons,
    utf8Size_append, utf8Size_append, Nat.add_assoc]

/-- A place between the lines of a text is that of the offset. -/
theorem LineOffset.Between.locates {text : String} {offset : Nat} {place : LineOffset}
    {above below : List (List Char)} (h : place.Between 1 offset above below)
    (hlines : lines text.toList = above ++ place.text :: below) : place.Locates text offset := by
  obtain ⟨hnumber, hoffset, hcolumn⟩ := h
  have hsize := utf8ByteSize_eq_of_lines hlines
  have hindex : place.number - 1 = above.length := by omega
  refine ⟨by omega, ?_, ?_, fun hlt => ?_, fun hle => ?_⟩
  · rw [hindex, hlines, List.getElem?_append_right (Nat.le_refl _), Nat.sub_self]
    rfl
  · rw [hindex, hlines, List.take_left, sum_map_utf8Size, hoffset]
  · rcases hcolumn with hcolumn | ⟨rfl, hcolumn⟩
    · exact hcolumn
    · rw [List.flatten_nil, utf8Size_nil] at hsize
      omega
  · rcases hcolumn with hcolumn | ⟨rfl, hcolumn⟩
    · omega
    · exact ⟨by rw [hlines, List.length_append, List.length_singleton]; omega, hcolumn⟩

/-- The place of an offset lies between the lines of the text. -/
theorem LineOffset.Locates.between {text : String} {offset : Nat} {place : LineOffset}
    (h : place.Locates text offset) : ∃ above below,
      lines text.toList = above ++ place.text :: below ∧ place.Between 1 offset above below := by
  obtain ⟨hpos, htext, hoffset, hinside, hatEnd⟩ := h
  obtain ⟨hindex, -⟩ := List.getElem?_eq_some_iff.1 htext
  refine ⟨(lines text.toList).take (place.number - 1), (lines text.toList).drop place.number,
    ?_, ?_, ?_, ?_⟩
  · -- What is dropped after the lines above is the line of the place and those below.
    have hdrop := List.drop_eq_getElem?_toList_append (l := lines text.toList)
      (i := place.number - 1)
    rw [htext, Nat.sub_add_cancel hpos] at hdrop
    exact (List.take_append_drop _ _).symm.trans (congrArg _ hdrop)
  · rw [List.length_take, Nat.min_eq_left (Nat.le_of_lt hindex)]
    omega
  · rw [← sum_map_utf8Size, hoffset]
  · rcases Nat.lt_or_ge offset text.utf8ByteSize with hlt | hge
    · exact .inl (hinside hlt)
    · obtain ⟨hnumber, hcolumn⟩ := hatEnd hge
      exact .inr ⟨List.drop_eq_nil_iff.2 (Nat.le_of_eq hnumber.symm), hcolumn⟩

/-- Looking up an offset finds its place. -/
theorem lineOffset?_eq_some_iff {text : String} {offset : Nat} {place : LineOffset} :
    lineOffset? text.toList offset = some place ↔ place.Locates text offset := by
  refine lineOffsetFrom_eq_some_iff.trans ⟨?_, LineOffset.Locates.between⟩
  rintro ⟨above, below, hlines, h⟩
  exact h.locates hlines

example : lineOffset? "a\n".toList 2 = some ⟨1, ['a', '\n'], 2⟩ := by rfl

/-- An offset has no place behind the end of a text, and none in a text that is empty. -/
theorem lineOffset?_eq_none_iff {text : String} {offset : Nat} :
    lineOffset? text.toList offset = none ↔ text.utf8ByteSize < offset ∨ text = "" := by
  have hempty : lines text.toList = [] ↔ text = "" := by
    refine ⟨fun h => ?_, fun h => h ▸ rfl⟩
    by_contra hne
    exact lines_ne_nil (mt String.toList_eq_nil_iff.1 hne) h
  rw [lineOffset?, lineOffsetFrom_eq_none_iff, flatten_lines, ← utf8ByteSize_eq, hempty]

/-- No place is that of two offsets. -/
theorem LineOffset.Locates.offset_unique {text : String} {offset other : Nat} {place : LineOffset}
    (h : place.Locates text offset) (h' : place.Locates text other) : offset = other :=
  h.bytes.symm.trans h'.bytes

/-- Looking up the line of an offset undoes counting bytes. A text is cut after its line feeds in
one way. An offset has no place only behind the end of the text or in an empty text; otherwise it
has one, which is in the line with its number, behind the lines before it by its column, and at the
end of a line only at the end of the text. So the place of an offset tells the offset. -/
theorem offsets_placed (text : String) :
    (∀ pieces, CutAfterNewlines text.toList pieces ↔ pieces = lines text.toList) ∧
    ∀ offset : Nat,
      (lineOffset? text.toList offset = none ↔ text.utf8ByteSize < offset ∨ text = "") ∧
      (∀ place, lineOffset? text.toList offset = some place ↔ place.Locates text offset) ∧
      ∀ place other, lineOffset? text.toList offset = some place →
        lineOffset? text.toList other = some place → other = offset := by
  refine ⟨fun _ => cutAfterNewlines_iff, fun offset => ⟨lineOffset?_eq_none_iff,
    fun _ => lineOffset?_eq_some_iff, fun place other hplace hother => ?_⟩⟩
  exact (lineOffset?_eq_some_iff.1 hother).offset_unique (lineOffset?_eq_some_iff.1 hplace)

/-- A blank line below one with a character of two bytes. -/
theorem offsets_placed_blank_line :
    lineOffset? "\u00e9\n\nb".toList 3 = some ⟨2, ['\n'], 0⟩ ∧
      LineOffset.Locates ⟨2, ['\n'], 0⟩ "\u00e9\n\nb" 3 ∧
      ∀ other, lineOffset? "\u00e9\n\nb".toList other = some ⟨2, ['\n'], 0⟩ → other = 3 := by
  have hplace : lineOffset? "\u00e9\n\nb".toList 3 = some ⟨2, ['\n'], 0⟩ := by rfl
  obtain ⟨-, hoffsets⟩ := offsets_placed "\u00e9\n\nb"
  obtain ⟨-, hlocates, hdetermined⟩ := hoffsets 3
  exact ⟨hplace, (hlocates _).1 hplace, fun other => hdetermined _ other hplace⟩

end LetWhile.Text
