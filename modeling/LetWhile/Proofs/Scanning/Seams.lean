import LetWhile.Proofs.Fault.Located
import LetWhile.Proofs.Scanning.Joined

/-!
# Line feeds as seams

Two texts with a line feed between them are scanned one after the other, also where one of them
cannot be scanned (`Source.tokens_across_line`): what is wrong in the first is wrong at the same
place, and what is wrong in the second is wrong further on.
-/

namespace LetWhile

namespace Source

/-- Where a source cannot be scanned, its text cannot be scanned either. -/
theorem tokens_eq_error {source : Source} {fault : Fault Position}
    (h : source.tokens = .error fault) : ∃ found, Token.scan source.text.toList = .error found ∧
      fault = found.map source.place := by
  rw [tokens] at h
  cases hscan : Token.scan source.text.toList with
  | error found =>
    rw [hscan] at h
    cases h
    exact ⟨found, rfl, rfl⟩
  | ok found =>
    rw [hscan] at h
    cases h

/-- The place where scanning fails is in the text. -/
theorem byte_le_of_tokens_error {source : Source} {fault : Fault Position}
    (hsize : source.text.utf8ByteSize < 2 ^ 32) (h : source.tokens = .error fault) :
    fault.pos.byte ≤ source.text.utf8ByteSize := by
  obtain ⟨found, hscan, rfl⟩ := tokens_eq_error h
  obtain ⟨-, rest, -, hstands⟩ := Token.stands_of_scanFrom 0 source.text.toList hscan [] rfl rfl
  show (source.place found.pos).byte ≤ _
  rw [byte_place_of_isValid hsize hstands.isValid_start]
  exact hstands.isValid_start.le_utf8ByteSize

variable {a b file : String}

/-- What is wrong in front of a line feed is wrong there whatever follows. -/
theorem tokens_joined_error_left {fault : Fault Position}
    (h : (Source.mk a file).tokens = .error fault) :
    ∃ cause, (Source.mk (a ++ "\n" ++ b) file).tokens = .error ⟨cause, fault.pos⟩ := by
  obtain ⟨found, hscan, rfl⟩ := tokens_eq_error h
  obtain ⟨cause, hjoined⟩ := Token.scanFrom_line_error 0 a.toList b.toList found hscan
  refine ⟨cause, ?_⟩
  rw [tokens, Token.scan, toList_joined, hjoined]
  rfl

/-- What is wrong behind a line feed is wrong for the same cause, further on by what precedes it. -/
theorem tokens_joined_error_right {tokens : List (Token Position)} {fault : Fault Position}
    (h : (Source.mk a file).tokens = .ok tokens) (h' : (Source.mk b file).tokens = .error fault) :
    (Source.mk (a ++ "\n" ++ b) file).tokens =
      .error (fault.map (Position.shift (a.utf8ByteSize + 1))) := by
  obtain ⟨first, hfirst, -⟩ := tokens_eq_ok h
  obtain ⟨found, hfound, rfl⟩ := tokens_eq_error h'
  have hshifted : Token.scanFrom (0 + Text.utf8Size a.toList + 1) b.toList =
      .error (found.map (· + (Text.utf8Size a.toList + 1))) := by
    rw [Nat.add_assoc, Token.scanFrom_add]
    exact congrArg (Outcome.relocate _ _) hfound
  rw [Source.tokens, Token.scan, toList_joined, Token.scanFrom_line 0 _ _ first hfirst, hshifted,
    Text.utf8ByteSize_eq]
  simp only [Except.map, Outcome.relocate, Fault.map, place_add]
  rfl

/-- Two texts of one file with a line feed between them have the tokens of the first and then those
of the second, further on by the first and the line feed. If the first cannot be scanned, both
together fail at the same place, and if only the second cannot be, both together fail for the same
cause, further on. As long as the offsets are below `2 ^ 32`, these add up. -/
theorem tokens_across_line (a b file : String) (hsize : (a ++ "\n" ++ b).utf8ByteSize < 2 ^ 32) :
    let both : Source := ⟨a ++ "\n" ++ b, file⟩
    let shift := Position.shift (a.utf8ByteSize + 1)
    match (Source.mk a file).tokens, (Source.mk b file).tokens with
    | .ok tokens, .ok found =>
      both.tokens = .ok (tokens ++ found.map (Token.map shift)) ∧
        found.map (Token.map fun pos => (shift pos).byte) =
          found.map (Token.map fun pos => pos.byte + (a.utf8ByteSize + 1))
    | .ok _, .error fault =>
      both.tokens = .error ⟨fault.cause, shift fault.pos⟩ ∧
        (shift fault.pos).byte = fault.pos.byte + (a.utf8ByteSize + 1)
    | .error fault, _ => ∃ cause, both.tokens = .error ⟨cause, fault.pos⟩ := by
  intro both shift
  have hsum : (a ++ "\n" ++ b).utf8ByteSize = a.utf8ByteSize + 1 + b.utf8ByteSize := by
    simp only [String.utf8ByteSize_append]
    rfl
  have hsize' : (Source.mk b file).text.utf8ByteSize < 2 ^ 32 := by
    show b.utf8ByteSize < 2 ^ 32
    omega
  have hbyte {pos : Position} (hpos : pos.byte ≤ b.utf8ByteSize) :
      (shift pos).byte = pos.byte + (a.utf8ByteSize + 1) := Position.byte_shift (by omega)
  cases h : (Source.mk a file).tokens with
  | error fault => exact tokens_joined_error_left h
  | ok tokens =>
    cases h' : (Source.mk b file).tokens with
    | error fault =>
      exact ⟨tokens_joined_error_right h h', hbyte (byte_le_of_tokens_error hsize' h')⟩
    | ok found =>
      refine ⟨tokens_joined h h', List.map_congr_left fun token htoken => ?_⟩
      obtain ⟨hstart, hstop⟩ := (tokens_cover hsize' h').1.boundaries _
        (List.mem_map_of_mem htoken)
      simp only [Token.map, Span.map, hbyte hstart.le_utf8ByteSize, hbyte hstop.le_utf8ByteSize]

/-- A name, and behind the line feed two spaces and a character that begins no token. -/
theorem tokens_across_line_umlaut :
    let both : Source := ⟨"x" ++ "\n" ++ "  é", "demo.let"⟩
    ("x" ++ "\n" ++ "  é").utf8ByteSize < 2 ^ 32 ∧
      (Source.mk "x" "demo.let").tokens =
        .ok [⟨.identifier, "x", ⟨both.place 0, both.place 1⟩⟩] ∧
      (Source.mk "  é" "demo.let").tokens = .error ⟨.unrecognisedToken "é", both.place 2⟩ ∧
      both.tokens = .error ⟨.unrecognisedToken "é", both.place 4⟩ := by
  intro both
  have hsize : ("x" ++ "\n" ++ "  é").utf8ByteSize < 2 ^ 32 := by decide +kernel
  have h : (Source.mk "x" "demo.let").tokens =
      .ok [⟨.identifier, "x", ⟨both.place 0, both.place 1⟩⟩] := by decide +kernel
  have h' : (Source.mk "  é" "demo.let").tokens =
      .error ⟨.unrecognisedToken "é", both.place 2⟩ := by decide +kernel
  have hboth := tokens_across_line "x" "  é" "demo.let" hsize
  rw [h, h'] at hboth
  exact ⟨hsize, h, h', hboth.1⟩

end Source

end LetWhile
