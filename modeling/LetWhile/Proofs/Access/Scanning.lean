import LetWhile.Proofs.Access.Basic
import LetWhile.Proofs.Scanning.Layout

/-!
# Scanning by offsets

A scanner that keeps the whole text and a byte offset takes the rest of the text at each step, which
is an access at a place that must be at the front of a character. It always is, since the scanner
moves on by whole lexemes (`Indexed.scan_gives`).
-/

namespace LetWhile

namespace Indexed

open Text (utf8Size)

/-- A text that is cut at an offset has a front of that size. -/
theorem cutText_eq_some {offset : Nat} {cs front back : List Char}
    (h : cutText offset cs = some (front, back)) :
    cs = front ++ back ∧ utf8Size front = offset := by
  induction cs generalizing offset front with
  | nil =>
    unfold cutText at h
    split at h
    · cases h
      exact ⟨rfl, by rw [Text.utf8Size_nil]; omega⟩
    · cases h
  | cons c cs ih =>
    unfold cutText at h
    split at h
    · cases h
      exact ⟨rfl, by rw [Text.utf8Size_nil]; omega⟩
    · split at h
      · obtain ⟨⟨rest, _⟩, hcut, heq⟩ := Option.map_eq_some_iff.1 h
        cases heq
        obtain ⟨rfl, hsize⟩ := ih hcut
        exact ⟨rfl, by rw [Text.utf8Size_cons]; omega⟩
      · cases h

/-- What is behind an offset makes up the text with it. -/
theorem textFrom_eq_some {text remainder : List Char} {pos : Nat}
    (h : textFrom text pos = some remainder) :
    utf8Size text = pos + utf8Size remainder := by
  obtain ⟨⟨front, back⟩, hcut, rfl⟩ := Option.map_eq_some_iff.1 h
  obtain ⟨rfl, hsize⟩ := cutText_eq_some hcut
  rw [Text.utf8Size_append, hsize]

/-- What is in front of an offset has that size. -/
theorem textTo_eq_some {text matched : List Char} {stop : Nat}
    (h : textTo text stop = some matched) : utf8Size matched = stop := by
  obtain ⟨⟨front, back⟩, hcut, rfl⟩ := Option.map_eq_some_iff.1 h
  exact (cutText_eq_some hcut).2

/-- The lexeme at the front of a text that is not empty takes some bytes of it. -/
theorem utf8Size_take_pos {cs : List Char} (lexeme : Lexeme) (h : 0 < utf8Size cs) :
    0 < utf8Size (cs.take lexeme.length) := by
  obtain ⟨n, hn⟩ := Nat.exists_eq_succ_of_ne_zero (Nat.ne_of_gt lexeme.length_pos)
  cases cs with
  | nil => exact absurd h (Nat.lt_irrefl 0)
  | cons c cs =>
    have := c.utf8Size_pos
    rw [hn, List.take_succ_cons, Text.utf8Size_cons]
    omega

/-- The tokens of a text that begins with a lexeme, given those that follow it. -/
def tokensFrom (pos : Nat) (lexeme : Lexeme) (matched : List Char) (tokens : List (Token Nat)) :
    List (Token Nat) :=
  match lexeme.kind? with
  | none => tokens
  | some kind => ⟨kind, String.ofList matched, ⟨pos, pos + utf8Size matched⟩⟩ :: tokens

/-- The tokens of a text from a byte offset on. -/
def scanFrom (text : List Char) (pos : Nat) : Indexed Nat (List (Token Nat)) :=
  if _hend : utf8Size text ≤ pos then pure []
  else
    match _hremainder : textFrom text pos with
    | none => ExceptT.mk none
    | some remainder =>
      match lexeme? remainder with
      | none =>
        throw ⟨.unrecognisedToken (String.ofList (remainder.take Token.excerptLength)), pos⟩
      | some lexeme =>
        match _hmatched : textTo remainder (utf8Size (remainder.take lexeme.length)) with
        | none => ExceptT.mk none
        | some matched => do
          let tokens ← scanFrom text (pos + utf8Size matched)
          pure (tokensFrom pos lexeme matched tokens)
termination_by utf8Size text - pos
decreasing_by
  have hsize := textFrom_eq_some _hremainder
  have hpos := utf8Size_take_pos lexeme (show 0 < utf8Size remainder by omega)
  rw [← textTo_eq_some _hmatched] at hpos
  omega

/-- What is left of a scan that has got to the front of `rest`, which is not empty. -/
def scanRest (text : List Char) (pos : Nat) (rest : List Char) : Indexed Nat (List (Token Nat)) :=
  match lexeme? rest with
  | none => throw ⟨.unrecognisedToken (String.ofList (rest.take Token.excerptLength)), pos⟩
  | some lexeme => do
    let matched := rest.take lexeme.length
    let tokens ← scanFrom text (pos + utf8Size matched)
    pure (tokensFrom pos lexeme matched tokens)

/-- A scan that has got to the front of a rest of its text makes its accesses in range. -/
theorem scanFrom_append {before rest : List Char} (hne : rest ≠ []) :
    scanFrom (before ++ rest) (utf8Size before) =
      scanRest (before ++ rest) (utf8Size before) rest := by
  have hpos : 0 < utf8Size rest := by
    cases rest with
    | nil => exact absurd rfl hne
    | cons c rest =>
      have := c.utf8Size_pos
      rw [Text.utf8Size_cons]
      omega
  rw [scanFrom, dif_neg (by rw [Text.utf8Size_append]; omega)]
  split
  · rename_i hremainder
    cases (textFrom_append before rest).symm.trans hremainder
  · rename_i remainder hremainder
    cases (textFrom_append before rest).symm.trans hremainder
    unfold scanRest
    cases lexeme? rest with
    | none => rfl
    | some lexeme =>
      have hmatched := textTo_append (rest.take lexeme.length) (rest.drop lexeme.length)
      rw [List.take_append_drop] at hmatched
      simp only
      split
      · rename_i hnone
        cases hmatched.symm.trans hnone
      · rename_i matched hsome
        cases hmatched.symm.trans hsome
        rfl

/-- A scan goes on behind the lexeme that it has got to. -/
theorem scanFrom_lexeme_gives {before rest : List Char} {c : Char} {lexeme : Lexeme}
    {outcome : Outcome Nat (List (Token Nat))} (hl : lexeme? (c :: rest) = some lexeme)
    (h : ∀ passed : List Char,
      utf8Size before + utf8Size ((c :: rest).take lexeme.length) =
        utf8Size passed →
      (scanFrom (passed ++ (c :: rest).drop lexeme.length)
        (utf8Size before + utf8Size ((c :: rest).take lexeme.length))).Gives outcome) :
    (scanFrom (before ++ c :: rest) (utf8Size before)).Gives
      (outcome.map (tokensFrom (utf8Size before) lexeme ((c :: rest).take lexeme.length))) := by
  have hpassed := h (before ++ (c :: rest).take lexeme.length) (Text.utf8Size_append _ _).symm
  rw [List.append_assoc, List.take_append_drop] at hpassed
  rw [scanFrom_append (List.cons_ne_nil _ _), scanRest, hl]
  cases outcome with
  | error fault => exact hpassed.bind_error
  | ok tokens => exact hpassed.bind_ok (.pure _)

/-- Behind a front of the right size a text is scanned in range. The induction is on what is
left. -/
theorem scanFrom_gives (offset : Nat) (cs : List Char) : ∀ before : List Char,
    offset = utf8Size before →
      (scanFrom (before ++ cs) offset).Gives (Token.scanFrom offset cs) := by
  fun_induction Token.scanFrom offset cs with
  | case1 offset =>
    intro before hoffset
    rw [scanFrom, dif_pos (by simp [hoffset])]
    exact .pure _
  | case2 offset c rest hl =>
    rintro before rfl
    rw [scanFrom_append (List.cons_ne_nil _ _), scanRest, hl]
    exact .throw _
  | case3 offset c rest lexeme hl piece stop fault hfault ih =>
    rintro before rfl
    exact scanFrom_lexeme_gives hl (hfault ▸ ih)
  | case4 offset c rest lexeme hl piece stop tokens htokens hk ih =>
    rintro before rfl
    have hscan := scanFrom_lexeme_gives hl (htokens ▸ ih)
    simpa only [Except.map, tokensFrom, hk] using hscan
  | case5 offset c rest lexeme hl piece stop tokens htokens kind hk ih =>
    rintro before rfl
    have hscan := scanFrom_lexeme_gives hl (htokens ▸ ih)
    simpa only [Except.map, tokensFrom, hk] using hscan

/-- The tokens of a text. -/
def scan (text : List Char) : Indexed Nat (List (Token Nat)) := scanFrom text 0

/-- A text is scanned without going out of range. -/
theorem scan_gives (text : List Char) : (scan text).Gives (Token.scan text) :=
  scanFrom_gives 0 text [] rfl

end Indexed

end LetWhile
