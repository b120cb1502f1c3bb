import LetWhile.Proofs.Fault.Unclosed
import LetWhile.Proofs.Relocation.Sources

/-!
# Where faults lie

A fault of scanning lies where no lexeme begins (`Token.stands_of_scanFrom`), and every other fault
at an end of a token (`Source.fault_at_token`). So a fault of a source always lies in a line of its
text, and its report shows that line, with a caret if the line is not too wide for one
(`Source.fault_located`).
-/

namespace LetWhile

open Text (Stands utf8Size)

/-- Scanning fails at the front of a rest of the text, for a cause of its own. -/
theorem Token.stands_of_scanFrom {text : String} {fault : Fault Nat} (offset : Nat)
    (cs : List Char) (herror : scanFrom offset cs = .error fault) :
    ∀ before, text.toList = before ++ cs → offset = utf8Size before →
      fault.cause.stage = .scanning ∧
        ∃ rest, rest ≠ [] ∧ Stands text fault.pos rest text.utf8ByteSize := by
  fun_induction scanFrom offset cs with
  | case1 => cases herror
  | case2 offset c rest hl =>
    cases herror
    intro before htext hoffset
    refine ⟨rfl, c :: rest, List.cons_ne_nil _ _, before, [], by rw [htext, List.append_nil],
      hoffset, ?_⟩
    rw [Text.utf8ByteSize_eq, htext, Text.utf8Size_append, hoffset]
  | case3 offset c rest lexeme hl piece stop found hfound ih =>
    cases herror
    intro before htext hoffset
    refine ih hfound (before ++ piece) ?_ ?_
    · rw [htext, List.append_assoc, List.take_append_drop]
    · rw [Text.utf8Size_append, ← hoffset]
  | case4 => cases herror
  | case5 => cases herror

/-- A position that corresponds to another is an end of a token, if there is a token. -/
theorem Token.Corresponds.eq_nil_or_mem {P Q : Type} {origin p : P} {origin' q : Q}
    {tokens : List (Token P)} {tokens' : List (Token Q)}
    (h : Corresponds origin tokens origin' tokens' p q) :
    tokens = [] ∨ ∃ token ∈ tokens, p = token.span.start ∨ p = token.span.stop := by
  cases h with
  | origin hnil => exact .inl hnil
  | start htoken => exact .inr ⟨_, List.mem_of_getElem? htoken, .inl rfl⟩
  | stop htoken => exact .inr ⟨_, List.mem_of_getElem? htoken, .inr rfl⟩

/-- A source without tokens is well typed. -/
theorem Source.check_of_no_tokens {source : Source} (h : source.tokens = .ok []) :
    ∃ checked, source.check = .ok checked := by
  have hprogram : source.program depthLimit =
      .ok (.mk [] ⟨source.place 0, source.place 0⟩) := by
    rw [program_eq h]
    simp only [Block.ofTokens, nest, Nesting.nestFrom, List.reverse_nil, Outline.ofRegion,
      Outline.ofTrees_nil, Except.map, bind, Except.bind]
    rfl
  unfold check checkWithin
  rw [hprogram]
  exact ⟨_, rfl⟩

/-- A fault in a source that has tokens lies where one of them starts or stops. -/
theorem Source.fault_at_token {source : Source} {tokens : List (Token Position)}
    {fault : Fault Position} (htokens : source.tokens = .ok tokens)
    (h : source.check = .error fault) :
    ∃ token ∈ tokens, fault.pos = token.span.start ∨ fault.pos = token.span.stop := by
  obtain ⟨A, f, g, outcome, hcorresponds, hprogram, -⟩ :=
    Block.ofTokens_corresponds depthLimit (source.place 0) (source.place 0)
      (rfl : tokens.map Token.spelling = tokens.map Token.spelling)
  have hpos : ∃ a, fault.pos = f a := by
    unfold check checkWithin at h
    rw [program_eq htokens, hprogram] at h
    cases outcome with
    | error found =>
      cases h
      exact ⟨found.pos, rfl⟩
    | ok program =>
      simp only [Outcome.relocate_ok, bind, Except.bind, Session.run_relocate f] at h
      cases hreturns : (Session.builtin.run program).2 with
      | error found =>
        rw [hreturns] at h
        cases h
        exact ⟨found.pos, rfl⟩
      | ok returns =>
        rw [hreturns] at h
        cases h
  obtain ⟨a, ha⟩ := hpos
  rw [ha]
  rcases (hcorresponds a).eq_nil_or_mem with hnil | htoken
  · subst hnil
    obtain ⟨checked, hchecked⟩ := check_of_no_tokens htokens
    cases h.symm.trans hchecked
  · exact htoken

/-- A fault lies in a source that has a text: in its file, at the front of a character or at the end
of the text, and, unless it is found by scanning, at an end of a token. -/
structure Fault.LiesIn (fault : Fault Position) (source : Source) : Prop where
  file : fault.pos.file = source.file
  valid : String.Pos.Raw.IsValid source.text ⟨fault.pos.byte⟩
  nonempty : source.text.toList ≠ []
  token : fault.cause.stage ≠ .scanning → ∃ tokens, source.tokens = .ok tokens ∧
    ∃ token ∈ tokens, fault.pos = token.span.start ∨ fault.pos = token.span.stop

/-- Below `2 ^ 32`, the place of a boundary is that boundary. -/
theorem Source.byte_place_of_isValid {source : Source} {offset : Nat}
    (hsize : source.text.utf8ByteSize < 2 ^ 32)
    (h : String.Pos.Raw.IsValid source.text ⟨offset⟩) : (source.place offset).byte = offset :=
  source.byte_place (Nat.lt_of_le_of_lt h.le_utf8ByteSize hsize)

/-- A fault of scanning lies in the source, where no lexeme begins. -/
theorem Source.liesIn_of_scan_error {source : Source} {found : Fault Nat} {fault : Fault Position}
    (hsize : source.text.utf8ByteSize < 2 ^ 32)
    (hscan : Token.scan source.text.toList = .error found) (h : source.check = .error fault) :
    fault.LiesIn source := by
  have htokens : source.tokens = .error (found.map source.place) := by
    rw [tokens, hscan]
    rfl
  have hfault : fault = found.map source.place := by
    unfold check checkWithin program at h
    rw [htokens] at h
    cases h
    rfl
  subst hfault
  obtain ⟨hstage, rest, hrest, hstands⟩ :=
    Token.stands_of_scanFrom 0 source.text.toList hscan [] rfl rfl
  refine ⟨rfl, ?_, ?_, fun hne => absurd hstage hne⟩
  · show String.Pos.Raw.IsValid source.text ⟨(source.place found.pos).byte⟩
    rw [byte_place_of_isValid hsize hstands.isValid_start]
    exact hstands.isValid_start
  · obtain ⟨before, after, htext, -⟩ := hstands
    intro hnil
    rw [hnil] at htext
    simp [hrest] at htext

/-- A fault that is found after scanning lies in the source, at an end of a token. -/
theorem Source.liesIn_of_scan_ok {source : Source} {found : List (Token Nat)}
    {fault : Fault Position} (hsize : source.text.utf8ByteSize < 2 ^ 32)
    (hscan : Token.scan source.text.toList = .ok found) (h : source.check = .error fault) :
    fault.LiesIn source := by
  have htokens : source.tokens = .ok (found.map (Token.map source.place)) := by
    rw [tokens, hscan]
    rfl
  have hcovers := Token.scan_covers hscan
  obtain ⟨token, htoken, hpos⟩ := fault_at_token htokens h
  obtain ⟨other, hother, hmap⟩ := List.mem_map.1 htoken
  obtain ⟨hstart, hstop⟩ := hcovers.boundaries other hother
  -- The fault lies at the place of an offset that is an end of a token found by the scan.
  have hplace : ∃ offset, fault.pos = source.place offset ∧
      String.Pos.Raw.IsValid source.text ⟨offset⟩ := by
    subst hmap
    rcases hpos with hpos | hpos
    · exact ⟨other.span.start, hpos, hstart⟩
    · exact ⟨other.span.stop, hpos, hstop⟩
  obtain ⟨offset, hoffset, hvalid⟩ := hplace
  refine ⟨by rw [hoffset]; rfl, ?_, ?_, fun _ => ⟨_, htokens, token, htoken, hpos⟩⟩
  · rw [hoffset, byte_place_of_isValid hsize hvalid]
    exact hvalid
  · intro hnil
    have hle := hstop.le_utf8ByteSize
    rw [Text.utf8ByteSize_eq, hnil] at hle
    exact absurd (Nat.lt_of_lt_of_le (hcovers.nonempty other hother) hle) (Nat.not_lt_zero _)

/-- A fault of a source lies in it, as long as its offsets are below `2 ^ 32`. -/
theorem Source.fault_liesIn {source : Source} {fault : Fault Position}
    (hsize : source.text.utf8ByteSize < 2 ^ 32) (h : source.check = .error fault) :
    fault.LiesIn source := by
  cases hscan : Token.scan source.text.toList with
  | error found => exact liesIn_of_scan_error hsize hscan h
  | ok found => exact liesIn_of_scan_ok hsize hscan h

/-- A fault of a source whose offsets are below `2 ^ 32` lies in its file, at the front of a
character of its text or at its end, and, unless it is found by scanning, at an end of a token. The
place is in one of the lines of the text. A report of the fault shows that line, without its
indentation and the white space at its end, and a caret below it if fewer than `widestField` dashes
lead there. It breaks off in front of the caret if there are more. -/
theorem Source.fault_located (text : String) (file? : Option String)
    (hsize : text.utf8ByteSize < 2 ^ 32) :
    let source : Source := ⟨text, file?.getD Source.shell⟩
    ∀ fault, source.check = .error fault →
      fault.pos.file = file?.getD Source.shell ∧
      fault.pos.byte ≤ text.utf8ByteSize ∧
      String.Pos.Raw.IsValid text ⟨fault.pos.byte⟩ ∧
      (fault.cause.stage ≠ .scanning → ∃ tokens, source.tokens = .ok tokens ∧
        ∃ token ∈ tokens, fault.pos = token.span.start ∨ fault.pos = token.span.stop) ∧
      ∃ place, Text.lineOffset? text.toList fault.pos.byte = some place ∧
        place.Within 1 fault.pos.byte (Text.lines text.toList) ∧
        ∀ name,
          let number := toString place.number
          let bar := alignRight ' ' (number.length + 2) "|"
          let shown := [fault.cause.headline, "-> " ++ name, bar, number ++ " | " ++
            String.ofList (Text.dropBlanksEnd (place.text.dropWhile isIndent))]
          fault.report text name =
            if place.dashes < widestField then ⟨shown ++ [caretLine bar place.dashes], true⟩
            else ⟨shown, false⟩ := by
  intro source fault h
  obtain ⟨hfile, hvalid, hne, hstage⟩ := fault_liesIn hsize h
  have hle : fault.pos.byte ≤ text.utf8ByteSize := hvalid.le_utf8ByteSize
  obtain ⟨place, hplace, hwithin⟩ :=
    Text.lineOffset?_of_le hne (Text.utf8ByteSize_eq text ▸ hle)
  exact ⟨hfile, hle, hvalid, hstage, place, hplace, hwithin,
    fault.report_of_place hplace (Text.utf8ByteSize_eq text ▸ hsize)⟩

/-- A truth value compared with a number, on the second line of a text, behind a tab. -/
theorem Source.fault_located_tabbed :
    let text := "let a: Int = 1;\n\ta == true;"
    let source : Source := ⟨text, Source.shell⟩
    ∃ fault, source.check = .error fault ∧ fault.pos = source.place 22 ∧
      ∃ place, Text.lineOffset? text.toList fault.pos.byte = some place ∧
        place.Within 1 fault.pos.byte (Text.lines text.toList) ∧ place.number = 2 := by
  intro text source
  have htokens : source.tokens = .ok
      [⟨.keyword .letWord, "let", ⟨source.place 0, source.place 3⟩⟩,
        ⟨.identifier, "a", ⟨source.place 4, source.place 5⟩⟩,
        ⟨.colon, ":", ⟨source.place 5, source.place 6⟩⟩,
        ⟨.typeName, "Int", ⟨source.place 7, source.place 10⟩⟩,
        ⟨.operator, "=", ⟨source.place 11, source.place 12⟩⟩,
        ⟨.number, "1", ⟨source.place 13, source.place 14⟩⟩,
        ⟨.semicolon, ";", ⟨source.place 14, source.place 15⟩⟩,
        ⟨.identifier, "a", ⟨source.place 17, source.place 18⟩⟩,
        ⟨.operator, "==", ⟨source.place 19, source.place 21⟩⟩,
        ⟨.boolean, "true", ⟨source.place 22, source.place 26⟩⟩,
        ⟨.semicolon, ";", ⟨source.place 26, source.place 27⟩⟩] := by
    decide +kernel
  have hcheck : source.check = .error ⟨.argumentMismatch Ty.int Ty.bool, source.place 22⟩ := by
    unfold Source.check Source.checkWithin
    rw [Source.program_eq htokens]
    cbv
  obtain ⟨-, -, -, -, place, hplace, hwithin, -⟩ :=
    Source.fault_located text none (by decide +kernel) _ hcheck
  refine ⟨_, hcheck, rfl, place, hplace, hwithin, ?_⟩
  cbv at hplace
  cases hplace
  rfl

/-- An unclosed quote behind a name of 65535 bytes: as many dashes lead to it, and the report breaks
off in front of the caret. -/
theorem Source.caret_missing :
    let source : Source := ⟨String.ofList (List.replicate 65535 'a') ++ "\"", Source.shell⟩
    source.text.utf8ByteSize < 2 ^ 32 ∧ ∃ fault, source.check = .error fault ∧
      fault.report source.text Source.shell =
        ⟨["Error: UnrecognisedToken", "-> shell", "  |", "1 | " ++ source.text], false⟩ := by
  intro source
  obtain ⟨hbytes, fault, hcheck, hreport⟩ :=
    Source.report_letters 65534 (by decide) Source.shell Source.shell
  refine ⟨?_, fault, hcheck, hreport.trans (if_neg (by decide))⟩
  rw [hbytes]
  decide

end LetWhile
