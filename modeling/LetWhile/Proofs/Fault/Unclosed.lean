import LetWhile.Proofs.Fault.Printed
import LetWhile.Proofs.Printing.Lexemes
import LetWhile.Proofs.Relocation.Sources

/-!
# Quotes that are not closed

A name with a quote mark behind it cannot be scanned: the fault lies at the mark, since no string
begins there (`Source.check_unclosed`). All characters of the name are in front of it, so the report
has a caret exactly if the name is short enough (`Source.report_unclosed`).
-/

namespace LetWhile

open Lexeme (isNameChar ne_of_isNameChar)
open Text (dropBlanksEnd utf8Size)

/-- An offset in a text of one line lies in that line. -/
theorem Text.lineOffset?_of_not_mem {line : List Char} {offset : Nat} (h : '\n' ∉ line)
    (hne : line ≠ []) (hle : offset ≤ utf8Size line) :
    lineOffset? line offset = some ⟨1, line, offset⟩ := by
  rw [lineOffset?, lines_of_not_mem h hne]
  exact if_pos hle

/-- The letter `a`, any number of times, is a name. -/
theorem isName_replicate (n : Nat) :
    IsName beginsIdentifier (String.ofList (List.replicate (n + 1) 'a')) := by
  have htext : (String.ofList (List.replicate (n + 1) 'a')).toList = 'a' :: List.replicate n 'a' :=
    String.toList_ofList
  refine ⟨⟨⟨'a', _, htext, rfl⟩, fun c hc => ?_⟩, fun other hother hword => ?_⟩
  · rw [String.toList_ofList] at hc
    rw [List.eq_of_mem_replicate hc]
    rfl
  · -- Each reserved word has a letter that is not an `a`.
    have hwords : ∀ word ∈ reservedWords, word.2.toList.any (· != 'a') = true := by decide
    obtain ⟨c, hc, hne⟩ := List.any_eq_true.1 (hwords other hother)
    rw [hword, String.toList_ofList] at hc
    exact bne_iff_ne.1 hne (List.eq_of_mem_replicate hc)

/-- So many letters `a` take up as many bytes. -/
theorem utf8Size_replicate (n : Nat) :
    utf8Size (String.ofList (List.replicate n 'a')).toList = n := by
  have hone : ∀ c ∈ List.replicate n 'a', c.utf8Size = 1 := fun c hc => by
    rw [List.eq_of_mem_replicate hc]
    rfl
  rw [String.toList_ofList, Text.utf8Size_eq_length_iff.2 hone, List.length_replicate]

/-- A text that is all on one line, without an indentation and without white space at its end. -/
structure IsOneLine (text : List Char) : Prop where
  line : '\n' ∉ text
  head : text.takeWhile isIndent = []
  last : dropBlanksEnd text = text

/-- There is no white space in a name. -/
theorem IsName.isOneLine {word : String} (h : IsName beginsIdentifier word) :
    IsOneLine (word.toList ++ ['"']) := by
  obtain ⟨c, cs, hword, -⟩ := h.head
  have hc : isNameChar c = true := h.chars c (hword ▸ .head cs)
  refine ⟨fun hmem => ?_, ?_, ?_⟩
  · rcases List.mem_append.1 hmem with hmem | hmem
    · exact ne_of_isNameChar (h.chars _ hmem) (by decide) rfl
    · exact absurd (List.mem_singleton.1 hmem) (by decide)
  · have hindent : ¬ isIndent c = true := by
      simp only [isIndent, Bool.or_eq_true, decide_eq_true_eq, not_or]
      exact ⟨ne_of_isNameChar hc (by decide), ne_of_isNameChar hc (by decide)⟩
    rw [hword, List.cons_append, List.takeWhile_cons_of_neg hindent]
  · have hquote : ¬ Text.isBlank '"' = true := by decide
    rw [dropBlanksEnd, List.reverse_append, List.reverse_singleton, List.singleton_append,
      List.dropWhile_cons_of_neg hquote, List.reverse_cons, List.reverse_reverse]

/-- The report of a fault in a text of one line shows the line as it is, and the caret if fewer than
`widestField` dashes lead to it. -/
theorem IsOneLine.report {fault : Fault Position} {text : String} (h : IsOneLine text.toList)
    (hne : text.toList ≠ []) (hsize : utf8Size text.toList < 2 ^ 32)
    (hle : fault.pos.byte ≤ utf8Size text.toList) (name : String) :
    let shown := [fault.cause.headline, "-> " ++ name, "  |", "1 | " ++ text]
    fault.report text name =
      if fault.pos.byte < widestField then ⟨shown ++ [caretLine "  |" fault.pos.byte], true⟩
      else ⟨shown, false⟩ := by
  have hplace : Text.lineOffset? text.toList fault.pos.offset.toNat =
      some ⟨1, text.toList, fault.pos.byte⟩ :=
    Text.lineOffset?_of_not_mem h.line hne hle
  have hdashes : Text.LineOffset.dashes ⟨1, text.toList, fault.pos.byte⟩ = fault.pos.byte := by
    rw [Text.LineOffset.dashes, Text.LineOffset.indent, h.head]
    rfl
  have hshown : text.toList.dropWhile isIndent = text.toList := by
    have hsplit := List.takeWhile_append_dropWhile (p := isIndent) (l := text.toList)
    rwa [h.head] at hsplit
  have hbar : alignRight ' ' ((toString 1).length + 2) "|" = "  |" := by decide
  have hnumber : toString 1 ++ " | " = "1 | " := by decide
  have hreport := fault.report_of_place hplace hsize name
  simp only [hdashes, hshown, h.last, String.ofList_toList, hbar, hnumber] at hreport
  exact hreport

/-- A text that cannot be scanned is reported by the name of the fault alone. -/
theorem headline_unrecognised (text : String) :
    (Cause.unrecognisedToken text).headline = "Error: UnrecognisedToken" := by
  simp only [Cause.headline, Cause.tip?, Cause.name]
  decide

namespace Source
variable {word : String}

/-- The fault of a name with a quote mark behind it lies at the mark. -/
theorem check_unclosed (h : IsName beginsIdentifier word) (file : String) :
    let source : Source := ⟨word ++ "\"", file⟩
    source.check = .error ⟨.unrecognisedToken "\"", source.place (utf8Size word.toList)⟩ := by
  intro source
  have hends : Kind.identifier.EndsBefore ['"'] := by
    rintro _ ⟨⟩
    rfl
  have hl := (Kind.Owns.identifier h).lexeme ['"'] hends
  have hquote : lexeme? ['"'] = none := by decide
  have hscan : Token.scan (word ++ "\"").toList =
      .error ⟨.unrecognisedToken "\"", utf8Size word.toList⟩ := by
    rw [Token.scan, String.toList_append, show "\"".toList = ['"'] from rfl,
      Token.scanFrom_token hl rfl]
    simp only [← String.length_toList, List.take_left, List.drop_left, Nat.zero_add]
    rw [Token.scanFrom, hquote]
    rfl
  rw [check, checkWithin, program, tokens, hscan]
  rfl

/-- The report of a quote mark behind a name shows the line, and the caret if fewer than
`widestField` dashes lead there. -/
theorem report_unclosed (h : IsName beginsIdentifier word)
    (hsize : utf8Size word.toList + 1 < 2 ^ 32) (file name : String) :
    let source : Source := ⟨word ++ "\"", file⟩
    let shown := ["Error: UnrecognisedToken", "-> " ++ name, "  |", "1 | " ++ source.text]
    ∃ fault, source.check = .error fault ∧ fault.report source.text name =
      if utf8Size word.toList < widestField
      then ⟨shown ++ [caretLine "  |" (utf8Size word.toList)], true⟩ else ⟨shown, false⟩ := by
  intro source shown
  have htext : source.text.toList = word.toList ++ ['"'] := String.toList_append
  have hall : utf8Size source.text.toList = utf8Size word.toList + 1 := by
    rw [htext, Text.utf8Size_append]
    rfl
  have hne : source.text.toList ≠ [] := htext ▸ List.append_ne_nil_of_right_ne_nil _ nofun
  obtain ⟨fault, hcheck, hcause, hbyte⟩ : ∃ fault, source.check = .error fault ∧
      fault.cause.headline = "Error: UnrecognisedToken" ∧
      fault.pos.byte = utf8Size word.toList :=
    ⟨_, check_unclosed h file, headline_unrecognised "\"", source.byte_place (by omega)⟩
  have hreport := (htext ▸ h.isOneLine : IsOneLine source.text.toList).report hne
    (by omega) (hbyte ▸ by omega : fault.pos.byte ≤ utf8Size source.text.toList) name
  rw [hcause, hbyte] at hreport
  exact ⟨fault, hcheck, hreport⟩

/-- With `n + 1` letters in front of the quote mark, as many dashes lead to the caret. -/
theorem report_letters (n : Nat) (hsize : n + 2 < 2 ^ 32) (file name : String) :
    let source : Source := ⟨String.ofList (List.replicate (n + 1) 'a') ++ "\"", file⟩
    let shown := ["Error: UnrecognisedToken", "-> " ++ name, "  |", "1 | " ++ source.text]
    source.text.utf8ByteSize = n + 2 ∧ ∃ fault, source.check = .error fault ∧
      fault.report source.text name =
        if n + 1 < widestField then ⟨shown ++ [caretLine "  |" (n + 1)], true⟩
        else ⟨shown, false⟩ := by
  intro source shown
  have hletters := utf8Size_replicate (n + 1)
  have hreport := report_unclosed (isName_replicate n) (by omega) file name
  rw [hletters] at hreport
  refine ⟨?_, hreport⟩
  rw [Text.utf8ByteSize_eq, String.toList_append, Text.utf8Size_append, hletters]
  rfl

end Source

end LetWhile
