import LetWhile.Fault.Basic
import LetWhile.Text.Utf8
import LetWhile.Token.Lexeme

/-!
# Scanning

A text is cut into lexemes from the front; blanks and comments are passed over, and the others
become tokens with the byte offsets they were found at. Where no rule applies, the scanner reports
the text that is left, cut off after `Token.excerptLength` characters.
-/

namespace LetWhile

/-- How many characters are quoted where scanning fails. -/
def Token.excerptLength : Nat := 40

/-- The tokens of a text that begins at a byte offset. -/
def Token.scanFrom (offset : Nat) (cs : List Char) : Outcome Nat (List (Token Nat)) :=
  match cs with
  | [] => .ok []
  | c :: rest =>
    match lexeme? (c :: rest) with
    | none => .error ⟨.unrecognisedToken (String.ofList ((c :: rest).take excerptLength)), offset⟩
    | some lexeme =>
      let text := (c :: rest).take lexeme.length
      let stop := offset + Text.utf8Size text
      match scanFrom stop ((c :: rest).drop lexeme.length) with
      | .error fault => .error fault
      | .ok tokens =>
        match lexeme.kind? with
        | none => .ok tokens
        | some kind => .ok (⟨kind, String.ofList text, ⟨offset, stop⟩⟩ :: tokens)
termination_by cs.length
decreasing_by
  have := lexeme.length_pos
  simp only [List.length_drop, List.length_cons]
  omega

section
variable {offset : Nat} {cs : List Char} {lexeme : Lexeme}

/-- Behind a lexeme that makes no token the scan goes on. -/
theorem Token.scanFrom_skip (h : lexeme? cs = some lexeme) (hk : lexeme.kind? = none) :
    scanFrom offset cs =
      scanFrom (offset + Text.utf8Size (cs.take lexeme.length)) (cs.drop lexeme.length) := by
  cases cs with
  | nil => cases h
  | cons c cs =>
    rw [scanFrom, h]
    simp only [hk]
    cases scanFrom _ _ <;> rfl

/-- A lexeme that makes a token is the first of the tokens. -/
theorem Token.scanFrom_token {kind : Kind} (h : lexeme? cs = some lexeme)
    (hk : lexeme.kind? = some kind) :
    scanFrom offset cs =
      (scanFrom (offset + Text.utf8Size (cs.take lexeme.length)) (cs.drop lexeme.length)).map
        (⟨kind, String.ofList (cs.take lexeme.length),
          ⟨offset, offset + Text.utf8Size (cs.take lexeme.length)⟩⟩ :: ·) := by
  cases cs with
  | nil => cases h
  | cons c cs =>
    rw [scanFrom, h]
    simp only [hk]
    cases scanFrom _ _ <;> rfl

end

/-- The tokens of a text. -/
def Token.scan (cs : List Char) : Outcome Nat (List (Token Nat)) := scanFrom 0 cs

end LetWhile
