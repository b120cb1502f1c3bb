import LetWhile.Proofs.Access.Report
import LetWhile.Proofs.Fault.Located
import LetWhile.Proofs.Program.Stage
import LetWhile.Proofs.Scanning.Fronts

/-!
# The caret of a report

A report shows the line of a fault without its indentation, and the caret stands behind a dash for
each byte between the indentation and the fault, if it can be written (`Source.caret_column`). Only white space can take
up more than one byte there, and where it does, the caret stands to the right of the fault
(`Source.caret_spaced`).
-/

namespace LetWhile

open Text (isBlank dropBlanksEnd utf8Size Complete)

/-! ## White space at the end -/

namespace Text

/-- White space at the end of two texts is at the end of the second, and of the first too if the
second is all white space. -/
theorem dropBlanksEnd_append (cs ds : List Char) : dropBlanksEnd (cs ++ ds) =
    if dropBlanksEnd ds = [] then dropBlanksEnd cs else cs ++ dropBlanksEnd ds := by
  simp only [dropBlanksEnd, List.reverse_append, List.dropWhile_append, List.reverse_eq_nil_iff,
    List.isEmpty_iff]
  split
  · rfl
  · rw [List.reverse_append, List.reverse_reverse]

/-- Nothing is left of a text exactly if it is all white space. -/
theorem dropBlanksEnd_eq_nil_iff {cs : List Char} :
    dropBlanksEnd cs = [] ↔ ∀ c ∈ cs, isBlank c = true := by
  rw [dropBlanksEnd, List.reverse_eq_nil_iff, List.dropWhile_eq_nil_iff]
  exact forall_congr' fun c => imp_congr_left List.mem_reverse

/-- A text that does not end with white space is left as it is. -/
theorem dropBlanksEnd_of_last {cs : List Char} (h : ∀ c ∈ cs.getLast?, isBlank c = false) :
    dropBlanksEnd cs = cs := by
  rcases List.eq_nil_or_concat cs with rfl | ⟨cs, c, rfl⟩
  · rfl
  rw [List.concat_eq_append] at h ⊢
  have hc : isBlank c = false := h c List.getLast?_concat
  have hlast : dropBlanksEnd [c] = [c] := by simp [dropBlanksEnd, hc]
  rw [dropBlanksEnd_append, hlast, if_neg (List.cons_ne_nil _ _)]

end Text

/-! ## Places in lines -/

/-- A fault stands in a line of a text: `above` are the lines in front of it, `indent` and `before`
what its line has in front of it, and `behind` is all that follows. -/
structure Fault.Stands (fault : Fault Position) (text : String)
    (above indent before behind : List Char) : Prop where
  text : text.toList = above ++ (indent ++ before ++ behind)
  offset : fault.pos.byte = utf8Size (above ++ (indent ++ before))
  above : ∀ c ∈ above.getLast?, c = '\n'
  line : '\n' ∉ indent ++ before
  indent : ∀ c ∈ indent, isIndent c = true
  shown : ∀ c ∈ (before ++ behind).head?, isIndent c = false

/-- What indents a line is white space. -/
theorem isBlank_of_isIndent {c : Char} (h : isIndent c = true) : isBlank c = true := by
  simp only [isIndent, Bool.or_eq_true, decide_eq_true_eq] at h
  rcases h with rfl | rfl <;> rfl

namespace Landmark
variable {front before behind : List Char}

/-- White space at the end of a line in which there is a landmark stands behind it. -/
theorem dropBlanksEnd_append (h : Landmark (front ++ before) behind) :
    dropBlanksEnd (before ++ behind.takeWhile (· != '\n')) =
      before ++ dropBlanksEnd (behind.takeWhile (· != '\n')) := by
  rw [Text.dropBlanksEnd_append]
  split
  · rename_i hnil
    rw [hnil, List.append_nil]
    refine Text.dropBlanksEnd_of_last fun c hc => ?_
    rcases h.touches with ⟨d, hd, hblank⟩ | ⟨d, hd, hblank⟩
    · have hne : before ≠ [] := by
        rintro rfl
        cases hc
      rw [List.getLast?_append_of_ne_nil _ hne] at hd
      cases hc.symm.trans hd
      exact hblank
    · cases behind with
      | nil => cases hd
      | cons e behind =>
        cases hd
        have hline : (d != '\n') = true := by
          refine bne_iff_ne.2 ?_
          rintro rfl
          cases hblank
        rw [List.takeWhile_cons, if_pos hline] at hnil
        cases hblank.symm.trans (Text.dropBlanksEnd_eq_nil_iff.1 hnil d (.head _))
  · rfl

/-- Up to a landmark a text is complete lines, an indentation and what is shown of its line. -/
theorem exists_split (h : Landmark front behind) : ∃ above indent before,
    front = above ++ (indent ++ before) ∧ Complete above ∧ '\n' ∉ indent ++ before ∧
      indent ++ before ++ behind ≠ [] ∧ (∀ c ∈ indent, isIndent c = true) ∧
        ∀ c ∈ (before ++ behind).head?, isIndent c = false := by
  obtain ⟨above, line, rfl, habove, hline⟩ := Text.exists_complete front
  have hsplit := List.takeWhile_append_dropWhile (p := isIndent) (l := line)
  refine ⟨above, line.takeWhile isIndent, line.dropWhile isIndent, by rw [hsplit], habove,
    by rwa [hsplit], ?_, fun c hc => List.mem_takeWhile_imp hc, fun c hc => ?_⟩
  · rw [hsplit]
    intro hnil
    obtain ⟨rfl, rfl⟩ := List.append_eq_nil_iff.1 hnil
    rw [List.append_nil] at h
    rcases h.touches with ⟨d, hd, hblank⟩ | ⟨d, hd, -⟩
    · rw [habove.getLast? d hd] at hblank
      cases hblank
    · cases hd
  cases hdrop : line.dropWhile isIndent with
  | cons d rest =>
    rw [hdrop] at hc
    cases hc
    have hnot := List.head?_dropWhile_not isIndent line
    rw [hdrop] at hnot
    exact hnot
  | nil =>
    -- The line is all indentation so far, so it is behind the place that there is no white space.
    have hall := List.dropWhile_eq_nil_iff.1 hdrop
    rw [hdrop, List.nil_append] at hc
    rcases h.touches with ⟨d, hd, hblank⟩ | ⟨d, hd, hblank⟩
    · have hwhite : isBlank d = true := by
        by_cases hnil : line = []
        · subst hnil
          rw [List.append_nil] at hd
          rw [habove.getLast? d hd]
          rfl
        · rw [List.getLast?_append_of_ne_nil _ hnil] at hd
          exact isBlank_of_isIndent (hall d (List.mem_of_getLast? hd))
      cases hblank.symm.trans hwhite
    · cases hc.symm.trans hd
      exact Bool.eq_false_iff.2 fun hindent =>
        absurd (hblank.symm.trans (isBlank_of_isIndent hindent)) Bool.noConfusion

end Landmark

section
variable {indent before behind stop : List Char}

/-- The line of a fault is indented as far as it is up to what is shown of it. -/
theorem takeWhile_isIndent_line (hindent : ∀ c ∈ indent, isIndent c = true)
    (hshown : ∀ c ∈ (before ++ behind).head?, isIndent c = false)
    (hstop : stop = [] ∨ stop = ['\n']) :
    (indent ++ (before ++ behind.takeWhile (· != '\n') ++ stop)).takeWhile isIndent = indent := by
  have hhead : ∀ c ∈ (before ++ behind.takeWhile (· != '\n') ++ stop).head?,
      isIndent c = false := by
    cases before with
    | cons d before => exact fun c hc => hshown c hc
    | nil =>
      cases behind with
      | nil =>
        rcases hstop with rfl | rfl
        · exact nofun
        · rintro _ ⟨⟩
          rfl
      | cons d behind =>
        intro c hc
        by_cases hd : d = '\n'
        · subst hd
          rcases hstop with rfl | rfl <;> cases hc
          rfl
        · rw [List.nil_append, List.takeWhile_cons, if_pos (bne_iff_ne.2 hd)] at hc
          exact hshown c hc
  rw [List.takeWhile_append_of_pos hindent]
  cases hcs : before ++ behind.takeWhile (· != '\n') ++ stop with
  | nil => rw [List.takeWhile_nil, List.append_nil]
  | cons c cs =>
    have hc : ¬ isIndent c = true := Bool.eq_false_iff.1 (hhead c (hcs ▸ rfl))
    rw [List.takeWhile_cons_of_neg hc, List.append_nil]

/-- There is a dash for each byte between the indentation of a line and the place in it. -/
theorem Text.LineOffset.dashes_of_indent (hindent : ∀ c ∈ indent, isIndent c = true)
    (hshown : ∀ c ∈ (before ++ behind).head?, isIndent c = false)
    (hstop : stop = [] ∨ stop = ['\n']) (number : Nat) :
    dashes ⟨number, indent ++ before ++ behind.takeWhile (· != '\n') ++ stop,
      utf8Size (indent ++ before)⟩ = utf8Size before := by
  have htake := takeWhile_isIndent_line hindent hshown hstop
  rw [List.append_assoc, List.append_assoc, ← List.append_assoc before]
  simp only [dashes, LineOffset.indent, htake, Text.utf8Size_append,
    Indexed.utf8Size_of_isIndent indent hindent, Nat.add_sub_cancel_left]

/-- A line is shown without its indentation and the white space at its end. -/
theorem dropBlanksEnd_of_indent (hindent : ∀ c ∈ indent, isIndent c = true)
    (hshown : ∀ c ∈ (before ++ behind).head?, isIndent c = false)
    (hstop : stop = [] ∨ stop = ['\n']) :
    dropBlanksEnd
      ((indent ++ before ++ behind.takeWhile (· != '\n') ++ stop).dropWhile isIndent) =
      dropBlanksEnd (before ++ behind.takeWhile (· != '\n')) := by
  have htake := takeWhile_isIndent_line hindent hshown hstop
  have hblanks : dropBlanksEnd stop = [] := by
    rcases hstop with rfl | rfl <;> rfl
  rw [List.append_assoc, List.append_assoc, ← List.append_assoc before, ← Lexeme.drop_run,
    Lexeme.run, htake, List.drop_left, Text.dropBlanksEnd_append _ stop, if_pos hblanks]

end

/-! ## Sources -/

namespace Source
variable {source : Source} {fault : Fault Position}

/-- Below `2 ^ 32`, the place behind the front of a text has the size of the front as its offset. -/
theorem byte_place_front (hsize : source.text.utf8ByteSize < 2 ^ 32) {front behind : List Char}
    (h : source.text.toList = front ++ behind) :
    (source.place (utf8Size front)).byte = utf8Size front := by
  rw [Text.utf8ByteSize_eq, h, Text.utf8Size_append] at hsize
  exact source.byte_place (by omega)

/-- A fault of a source lies at a landmark. -/
theorem fault_landmark (hsize : source.text.utf8ByteSize < 2 ^ 32)
    (h : source.check = .error fault) : ∃ front behind, source.text.toList = front ++ behind ∧
      fault.pos.byte = utf8Size front ∧ Landmark front behind := by
  cases hscan : Token.scan source.text.toList with
  | error found =>
    have htokens : source.tokens = .error (found.map source.place) := by
      rw [tokens, hscan]
      rfl
    cases h.symm.trans (checkWithin_of_tokens_error htokens)
    obtain ⟨front, rest, htext, hpassed, hne, hnone, hpos⟩ :=
      Token.passed_of_scanFrom_error 0 _ found hscan
    refine ⟨front, rest, htext, ?_, hpassed.landmark (Lexeme.isBlank_head_of_none hnone hne)⟩
    rw [Fault.map, hpos, Nat.zero_add, byte_place_front hsize htext]
  | ok found =>
    have htokens : source.tokens = .ok (found.map (Token.map source.place)) := by
      rw [tokens, hscan]
      rfl
    obtain ⟨token, htoken, hpos⟩ := fault_at_token htokens h
    obtain ⟨other, hother, rfl⟩ := List.mem_map.1 htoken
    obtain ⟨front, rest, lexeme, htext, hpassed, hl, hk, hspan⟩ :=
      Token.foundIn_of_scanFrom 0 _ found hscan other hother
    simp only [Token.map, Span.map, hspan, Nat.zero_add] at hpos
    rcases hpos with hpos | hpos
    · refine ⟨front, rest, htext, ?_, hpassed.landmark (Lexeme.isBlank_head hl hk)⟩
      rw [hpos, byte_place_front hsize htext]
    · have htext : source.text.toList =
          front ++ rest.take lexeme.length ++ rest.drop lexeme.length := by
        rw [List.append_assoc, List.take_append_drop, htext]
      refine ⟨_, _, htext, ?_, hpassed.landmark_behind hl hk⟩
      rw [hpos, byte_place_front hsize htext]

end Source

/-- The report of a fault shows its line and a caret. The line is the one behind as many line feeds
as stand in front of the fault, and is shown without its indentation and the white space at its end.
The caret stands behind one dash for each byte that is shown in front of the fault, and the report
breaks off instead where those are `widestField` or more. What is shown there is white space or takes
up one byte a character, so a caret stands below the fault exactly if all white space there takes up
one byte a character. -/
theorem Source.caret_column (text : String) (file? : Option String)
    (hsize : text.utf8ByteSize < 2 ^ 32) :
    let source : Source := ⟨text, file?.getD Source.shell⟩
    ∀ fault, source.check = .error fault → ∃ above indent before behind,
      fault.Stands text above indent before behind ∧
      (∀ name,
        let number := toString (1 + above.count '\n')
        let bar := alignRight ' ' (number.length + 2) "|"
        let line := before ++ dropBlanksEnd (behind.takeWhile (· != '\n'))
        let shown := [fault.cause.headline, "-> " ++ name, bar,
          number ++ " | " ++ String.ofList line]
        fault.report text name =
          if utf8Size before < widestField
          then ⟨shown ++ [caretLine bar (utf8Size before)], true⟩ else ⟨shown, false⟩) ∧
      (∀ c ∈ before, isBlank c = true ∨ c.utf8Size = 1) ∧
      (utf8Size before = before.length ↔ ∀ c ∈ before, isBlank c = true → c.utf8Size = 1) := by
  intro source fault h
  obtain ⟨front, behind, htext, hoffset, hlandmark⟩ := fault_landmark hsize h
  obtain ⟨above, indent, before, rfl, habove, hline, hne, hindent, hshown⟩ :=
    hlandmark.exists_split
  have hclear : ∀ c ∈ before, isBlank c = true ∨ c.utf8Size = 1 := fun c hc =>
    (hlandmark.lineClear.of_append.forall_mem hline) c (List.mem_append_right indent hc)
  have htext : text.toList = above ++ (indent ++ before ++ behind) := by
    rw [← List.append_assoc]
    exact htext
  refine ⟨above, indent, before, behind, ⟨htext, hoffset, habove.getLast?, hline, hindent, hshown⟩,
    fun name => ?_, hclear, ?_⟩
  · obtain ⟨stop, hstop, hplace⟩ := Text.lineOffset?_append habove hline hne
    rw [← htext, ← hoffset] at hplace
    rw [← List.append_assoc] at hlandmark
    rw [Fault.report_of_place hplace (Text.utf8ByteSize_eq text ▸ hsize),
      Text.LineOffset.dashes_of_indent hindent hshown hstop,
      dropBlanksEnd_of_indent hindent hshown hstop, hlandmark.dropBlanksEnd_append]
  · rw [Text.utf8Size_eq_length_iff]
    refine ⟨fun h c hc _ => h c hc, fun h c hc => ?_⟩
    exact (hclear c hc).elim (h c hc) id

/-- A name that is not declared, behind a tab and an equals sign on the second line of a text. -/
theorem Source.caret_column_indented :
    let text := "let a: Int = 1;\n\ta = b;"
    let source : Source := ⟨text, Source.shell⟩
    ∃ fault above indent before behind, source.check = .error fault ∧
      fault.Stands text above indent before behind ∧ utf8Size before = before.length := by
  intro text source
  have htokens : source.tokens = .ok
      [⟨.keyword .letWord, "let", ⟨source.place 0, source.place 3⟩⟩,
        ⟨.identifier, "a", ⟨source.place 4, source.place 5⟩⟩,
        ⟨.colon, ":", ⟨source.place 5, source.place 6⟩⟩,
        ⟨.typeName, "Int", ⟨source.place 7, source.place 10⟩⟩,
        ⟨.operator, "=", ⟨source.place 11, source.place 12⟩⟩,
        ⟨.number, "1", ⟨source.place 13, source.place 14⟩⟩,
        ⟨.semicolon, ";", ⟨source.place 14, source.place 15⟩⟩,
        ⟨.identifier, "a", ⟨source.place 17, source.place 18⟩⟩,
        ⟨.operator, "=", ⟨source.place 19, source.place 20⟩⟩,
        ⟨.identifier, "b", ⟨source.place 21, source.place 22⟩⟩,
        ⟨.semicolon, ";", ⟨source.place 22, source.place 23⟩⟩] := by
    decide +kernel
  have hcheck : source.check = .error ⟨.notDeclared "b", source.place 21⟩ := by
    unfold check checkWithin
    rw [program_eq htokens]
    cbv
  obtain ⟨above, indent, before, behind, hstands, -, -, hiff⟩ :=
    Source.caret_column text none (by decide +kernel) _ hcheck
  refine ⟨_, above, indent, before, behind, hcheck, hstands, hiff.2 fun c hc _ => ?_⟩
  have hascii : text.toList.all (·.utf8Size == 1) = true := by decide +kernel
  have hmem : c ∈ text.toList := by
    rw [hstands.text]
    exact List.mem_append_right _ (List.mem_append_left _ (List.mem_append_right _ hc))
  exact beq_iff_eq.1 (List.all_eq_true.1 hascii c hmem)

/-- A space of two bytes in front of the fault: there are 14 dashes and 13 characters. -/
theorem Source.caret_spaced :
    let text := "let a: Int =\u00a0b;"
    let source : Source := ⟨text, Source.shell⟩
    ∃ fault before behind, source.check = .error fault ∧
      fault.Stands text [] [] before behind ∧ before.length = 13 ∧
      fault.report text Source.shell = ⟨["Error: VariableNotDeclared (Variable `b` not declared)",
        "-> shell", "  |", "1 | let a: Int =\u00a0b;",
        "  | " ++ String.ofList (List.replicate 14 '-') ++ "^"], true⟩ := by
  intro text source
  have htokens : source.tokens = .ok
      [⟨.keyword .letWord, "let", ⟨source.place 0, source.place 3⟩⟩,
        ⟨.identifier, "a", ⟨source.place 4, source.place 5⟩⟩,
        ⟨.colon, ":", ⟨source.place 5, source.place 6⟩⟩,
        ⟨.typeName, "Int", ⟨source.place 7, source.place 10⟩⟩,
        ⟨.operator, "=", ⟨source.place 11, source.place 12⟩⟩,
        ⟨.identifier, "b", ⟨source.place 14, source.place 15⟩⟩,
        ⟨.semicolon, ";", ⟨source.place 15, source.place 16⟩⟩] := by
    decide +kernel
  have hcheck : source.check = .error ⟨.notDeclared "b", source.place 14⟩ := by
    unfold check checkWithin
    rw [program_eq htokens]
    cbv
  have hempty : ∀ c ∈ ([] : List Char).getLast?, c = '\n' := by rintro _ ⟨⟩
  have hhead : ∀ c ∈ ("let a: Int =\u00a0".toList ++ ['b', ';']).head?, isIndent c = false := by
    rintro _ ⟨⟩
    rfl
  refine ⟨_, "let a: Int =\u00a0".toList, ['b', ';'], hcheck,
    ⟨?_, ?_, hempty, ?_, List.forall_mem_nil _, hhead⟩, ?_, ?_⟩
  · decide +kernel
  · decide +kernel
  · decide +kernel
  · decide +kernel
  · cbv

end LetWhile
