import LetWhile.Text.Line
import Mathlib.Data.List.Basic
import Mathlib.Data.List.TakeWhile

/-!
# Looking up lines

Every offset up to the end of a text that is not empty lies in one of its lines
(`Text.lineOffset?_of_le`): in the one after the complete lines in front of it
(`Text.lineOffset?_append`).
-/

namespace LetWhile.Text

/-- A text that is not empty has a line. -/
theorem lines_ne_nil {text : List Char} (h : text ≠ []) : lines text ≠ [] := by
  cases text with
  | nil => exact absurd rfl h
  | cons c rest =>
    unfold lines
    split
    · exact List.cons_ne_nil _ _
    · split <;> exact List.cons_ne_nil _ _

/-- The lines of a text make it up. -/
theorem flatten_lines (text : List Char) : (lines text).flatten = text := by
  induction text with
  | nil => rfl
  | cons c rest ih =>
    unfold lines
    split
    · rw [List.flatten_cons, ih]
      rfl
    · split
      · rename_i hlines
        rw [hlines] at ih
        rw [← ih]
        rfl
      · rename_i line more hlines
        rw [hlines, List.flatten_cons] at ih
        rw [List.flatten_cons, List.cons_append, ih]

/-- A line that an offset is before the end of holds it. -/
theorem lineOffsetFrom_here {number offset : Nat} {line : List Char} {rest : List (List Char)}
    (h : offset < utf8Size line) :
    lineOffsetFrom number offset (line :: rest) = some ⟨number, line, offset⟩ := by
  cases rest with
  | nil => rw [lineOffsetFrom, if_pos (Nat.le_of_lt h)]
  | cons next rest =>
    rw [lineOffsetFrom, if_pos h]
    exact List.cons_ne_nil _ _

/-- An offset behind a line that is not the last lies in a later line. -/
theorem lineOffsetFrom_later {number offset : Nat} {line : List Char} {rest : List (List Char)}
    (hne : rest ≠ []) (h : utf8Size line ≤ offset) :
    lineOffsetFrom number offset (line :: rest) =
      lineOffsetFrom (number + 1) (offset - utf8Size line) rest := by
  rw [lineOffsetFrom, if_neg (Nat.not_lt.2 h)]
  exact hne

/-- An offset lies in one of some lines, of which the first has the given number: in the one with
the number `place.number`, after those before it and at most at its end. -/
structure LineOffset.Within (place : LineOffset) (number offset : Nat)
    (lines : List (List Char)) : Prop where
  number_le : number ≤ place.number
  text : lines[place.number - number]? = some place.text
  offset : utf8Size (lines.take (place.number - number)).flatten + place.column = offset
  column_le : place.column ≤ utf8Size place.text

/-- The place in the lines after the first one is the place in all of them. -/
theorem LineOffset.Within.cons {place : LineOffset} {number offset : Nat} {line : List Char}
    {rest : List (List Char)} (h : place.Within (number + 1) (offset - utf8Size line) rest)
    (hle : utf8Size line ≤ offset) : place.Within number offset (line :: rest) := by
  have hnumber := h.number_le
  have hoffset := h.offset
  have hindex : place.number - number = place.number - (number + 1) + 1 := by omega
  refine ⟨by omega, ?_, ?_, h.column_le⟩
  · rw [hindex, List.getElem?_cons_succ]
    exact h.text
  · rw [hindex, List.take_succ_cons, List.flatten_cons, utf8Size_append]
    omega

/-- An offset that is not beyond the end of the lines lies in one of them. -/
theorem lineOffsetFrom_of_le {number offset : Nat} {lines : List (List Char)} (hne : lines ≠ [])
    (hle : offset ≤ utf8Size lines.flatten) :
    ∃ place, lineOffsetFrom number offset lines = some place ∧
      place.Within number offset lines := by
  fun_induction lineOffsetFrom number offset lines with
  | case1 => exact absurd rfl hne
  | case2 number offset line hline =>
    exact ⟨_, rfl, Nat.le_refl _, by simp, by simp, hline⟩
  | case3 number offset line hline =>
    rw [List.flatten_singleton] at hle
    exact absurd hle hline
  | case4 number offset line rest _ hline =>
    exact ⟨_, rfl, Nat.le_refl _, by simp, by simp, Nat.le_of_lt hline⟩
  | case5 number offset line rest hrest hline ih =>
    rw [List.flatten_cons, utf8Size_append] at hle
    obtain ⟨place, hplace, hwithin⟩ := ih (fun h => hrest (by rw [h])) (by omega)
    exact ⟨place, hplace, hwithin.cons (Nat.le_of_not_lt hline)⟩

/-- An offset up to the end of a text lies in a line of it, if the text is not empty. -/
theorem lineOffset?_of_le {text : List Char} {offset : Nat} (hne : text ≠ [])
    (hle : offset ≤ utf8Size text) :
    ∃ place, lineOffset? text offset = some place ∧ place.Within 1 offset (lines text) := by
  rw [← flatten_lines text] at hle
  exact lineOffsetFrom_of_le (lines_ne_nil hne) hle

/-! ## Behind complete lines -/

/-- A text of lines that each end with their line feed. -/
inductive Complete : List Char → Prop
  | nil : Complete []
  | line {line rest : List Char} : '\n' ∉ line → Complete rest → Complete (line ++ '\n' :: rest)

/-- A text is complete lines and one more that has not ended. -/
theorem exists_complete (text : List Char) :
    ∃ above line, text = above ++ line ∧ Complete above ∧ '\n' ∉ line := by
  induction text with
  | nil => exact ⟨[], [], rfl, .nil, List.not_mem_nil⟩
  | cons c text ih =>
    obtain ⟨above, line, rfl, habove, hline⟩ := ih
    by_cases hc : c = '\n'
    · subst hc
      have hnil : '\n' ∉ [] := List.not_mem_nil
      exact ⟨'\n' :: above, line, rfl, .line hnil habove, hline⟩
    cases habove with
    | nil =>
      refine ⟨[], c :: line, rfl, .nil, fun hmem => ?_⟩
      exact (List.mem_cons.1 hmem).elim (fun h => hc h.symm) hline
    | @line first rest hfirst hrest =>
      refine ⟨(c :: first) ++ '\n' :: rest, line, rfl, .line (fun hmem => ?_) hrest, hline⟩
      exact (List.mem_cons.1 hmem).elim (fun h => hc h.symm) hfirst

/-- Complete lines end with a line feed. -/
theorem Complete.getLast? {text : List Char} (h : Complete text) :
    ∀ c ∈ text.getLast?, c = '\n' := by
  induction h with
  | nil => exact nofun
  | @line line rest _ _ ih =>
    intro c hc
    rw [List.getLast?_append_of_ne_nil _ (List.cons_ne_nil _ _)] at hc
    cases rest with
    | nil => exact (Option.some.inj hc).symm
    | cons d rest =>
      rw [List.getLast?_cons_cons] at hc
      exact ih c hc

/-- A text without line feeds is one line. -/
theorem lines_of_not_mem {line : List Char} (h : '\n' ∉ line) (hne : line ≠ []) :
    lines line = [line] := by
  induction line with
  | nil => exact absurd rfl hne
  | cons c line ih =>
    obtain ⟨hc, hline⟩ := not_or.1 (mt List.mem_cons.2 h)
    unfold lines
    rw [if_neg (Ne.symm hc)]
    cases line with
    | nil => rfl
    | cons d line => rw [ih hline (List.cons_ne_nil _ _)]

/-- A line feed ends the first line. -/
theorem lines_append_newline {line : List Char} (h : '\n' ∉ line) (rest : List Char) :
    lines (line ++ '\n' :: rest) = (line ++ ['\n']) :: lines rest := by
  induction line with
  | nil => rw [List.nil_append, lines, if_pos rfl, List.nil_append]
  | cons c line ih =>
    obtain ⟨hc, hline⟩ := not_or.1 (mt List.mem_cons.2 h)
    rw [List.cons_append, lines, if_neg (Ne.symm hc), ih hline]
    rfl

/-- The offset behind a part of the first line lies in this line, which goes on as the text does. -/
theorem lineOffsetFrom_first {line behind : List Char} (hline : '\n' ∉ line)
    (hne : line ++ behind ≠ []) (number : Nat) :
    ∃ stop, (stop = [] ∨ stop = ['\n']) ∧
      lineOffsetFrom number (utf8Size line) (lines (line ++ behind)) =
        some ⟨number, line ++ behind.takeWhile (· != '\n') ++ stop, utf8Size line⟩ := by
  have hfront : '\n' ∉ line ++ behind.takeWhile (· != '\n') := by
    intro hmem
    rcases List.mem_append.1 hmem with hmem | hmem
    · exact hline hmem
    · simpa using List.mem_takeWhile_imp hmem
  have hbehind := List.takeWhile_append_dropWhile (p := (· != '\n')) (l := behind)
  -- The line ends where the text does, or at the first line feed behind the part.
  cases hdrop : behind.dropWhile (· != '\n') with
  | nil =>
    rw [hdrop, List.append_nil] at hbehind
    rw [hbehind] at hfront ⊢
    refine ⟨[], .inl rfl, ?_⟩
    rw [lines_of_not_mem hfront hne, lineOffsetFrom, if_pos, List.append_nil]
    rw [utf8Size_append]
    exact Nat.le_add_right _ _
  | cons c rest =>
    have hc : c = '\n' := by
      have := List.head?_dropWhile_not (· != '\n') behind
      rw [hdrop] at this
      simpa using this
    subst hc
    refine ⟨['\n'], .inr rfl, ?_⟩
    rw [hdrop] at hbehind
    rw [← hbehind, ← List.append_assoc, lines_append_newline hfront, hbehind]
    refine lineOffsetFrom_here ?_
    have hpos : 0 < utf8Size ['\n'] := by decide
    rw [utf8Size_append, utf8Size_append]
    omega

/-- The offset behind complete lines and a part of the next one lies in this one, which goes on as
the text does. -/
theorem lineOffset?_append {above line behind : List Char} (habove : Complete above)
    (hline : '\n' ∉ line) (hne : line ++ behind ≠ []) :
    ∃ stop, (stop = [] ∨ stop = ['\n']) ∧
      lineOffset? (above ++ (line ++ behind)) (utf8Size (above ++ line)) =
        some ⟨1 + above.count '\n', line ++ behind.takeWhile (· != '\n') ++ stop,
          utf8Size line⟩ := by
  unfold lineOffset?
  generalize 1 = number
  induction habove generalizing number with
  | nil => exact lineOffsetFrom_first hline hne number
  | @line first rest hfirst _ ih =>
    obtain ⟨stop, hstop, hplace⟩ := ih (number + 1)
    refine ⟨stop, hstop, ?_⟩
    have hrest : lines (rest ++ (line ++ behind)) ≠ [] :=
      lines_ne_nil (List.append_ne_nil_of_right_ne_nil _ hne)
    have hsize : utf8Size (first ++ '\n' :: rest ++ line) =
        utf8Size (first ++ ['\n']) + utf8Size (rest ++ line) := by
      rw [← utf8Size_append]
      simp
    have hcount : (first ++ '\n' :: rest).count '\n' = 1 + rest.count '\n' := by
      rw [List.count_append, List.count_eq_zero.2 hfirst, List.count_cons_self, Nat.zero_add,
        Nat.add_comm]
    rw [hsize, hcount, List.append_assoc, List.cons_append, lines_append_newline hfirst,
      lineOffsetFrom_later hrest (Nat.le_add_right _ _), Nat.add_sub_cancel_left, hplace,
      Nat.add_assoc]

end LetWhile.Text
