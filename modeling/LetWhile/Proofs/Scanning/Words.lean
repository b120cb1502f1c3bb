import LetWhile.Proofs.Outline.Drawn
import LetWhile.Proofs.Printing.Lexemes

/-!
# What tokens of each kind look like

Each kind of token has its own texts (`Kind.Admits`): names are words, numbers are digits, and a
string literal stands between quotes. The tokens of a source look like this
(`Source.tokens_admitted`).
-/

namespace LetWhile

/-- A text that tokens of a kind can have. -/
def Kind.Admits (kind : Kind) (text : String) : Prop :=
  match kind with
  | .boolean => text = "true" ∨ text = "false"
  | .string => ∃ body, text.toList = '"' :: (body ++ ['"'])
  | .number => ∀ c ∈ text.toList, c.isDigit = true
  | .operator => ∀ c ∈ text.toList, Lexeme.isOperatorChar c = true
  | .typeName => IsWord Char.isUpper text
  | .identifier => IsWord beginsIdentifier text
  | kind => ∀ fixed ∈ kind.spelling?, text = fixed

/-- The words that kinds admit are well spelled. -/
theorem Kind.admits_wellSpelled : WellSpelled Kind.Admits := by
  intro kind text h
  cases kind with
  | boolean | string | number | operator | typeName | identifier =>
    intro fixed hfixed
    cases hfixed
  | _ => exact h

namespace Lexeme

/-- Letters are characters of names. -/
theorem isNameChar_of_isAlpha {c : Char} (h : c.isAlpha = true) : isNameChar c = true := by
  simp [isNameChar, Char.isAlphanum, h]

/-- What is taken as a name is a word that begins as asked for. -/
theorem nameFrom_isWord {begins : Char → Bool}
    (hbegins : ∀ c, begins c = true → isNameChar c = true) {cs : List Char}
    (h : 0 < nameFrom begins cs) :
    IsWord begins (String.ofList (cs.take (nameFrom begins cs))) := by
  cases cs with
  | nil => exact absurd h (Nat.lt_irrefl 0)
  | cons c cs =>
    simp only [nameFrom] at h ⊢
    split at h
    · rename_i hc
      rw [if_pos hc, Nat.add_comm, List.take_succ_cons, take_run]
      refine ⟨⟨c, _, String.toList_ofList, hc⟩, ?_⟩
      rw [String.toList_ofList]
      exact List.forall_mem_cons.2 ⟨hbegins c hc, fun d hd => List.mem_takeWhile_imp hd⟩
    · exact absurd h (Nat.lt_irrefl 0)

/-- What is taken as a number consists of digits. -/
theorem numeral_digits {cs : List Char} (h : 0 < numeral cs) :
    ∀ c ∈ cs.take (numeral cs), c.isDigit = true := by
  unfold numeral at h ⊢
  split at h
  · rename_i hends
    rw [if_pos hends, take_run]
    exact fun c hc => List.mem_takeWhile_imp hc
  · exact absurd h (Nat.lt_irrefl 0)

/-- The body of a string literal ends with a quote. -/
theorem stringBody_quoted (cs : List Char) : ∀ n, stringBody cs = some n →
    ∃ body, cs.take n = body ++ ['"'] := by
  fun_induction stringBody cs with
  | case1 =>
    rintro _ ⟨⟩
    exact ⟨[], rfl⟩
  | case2 cs ih =>
    intro n h
    obtain ⟨m, hm, rfl⟩ := Option.map_eq_some_iff.1 h
    obtain ⟨body, hbody⟩ := ih m hm
    exact ⟨'\\' :: '"' :: body, by rw [List.take_succ_cons, List.take_succ_cons, hbody]; rfl⟩
  | case3 c cs _ _ _ ih =>
    intro n h
    obtain ⟨m, hm, rfl⟩ := Option.map_eq_some_iff.1 h
    obtain ⟨body, hbody⟩ := ih m hm
    exact ⟨c :: body, by rw [List.take_succ_cons, hbody]; rfl⟩
  | case4 => rintro _ ⟨⟩
  | case5 => rintro _ ⟨⟩

/-- A string literal stands between quotes. -/
theorem stringLiteral_quoted {cs : List Char} (h : 0 < stringLiteral cs) :
    ∃ body, cs.take (stringLiteral cs) = '"' :: (body ++ ['"']) := by
  unfold stringLiteral at h ⊢
  split at h
  · rename_i rest
    cases hbody : stringBody rest with
    | none =>
      rw [hbody] at h
      exact absurd h (Nat.lt_irrefl 0)
    | some n =>
      obtain ⟨body, htake⟩ := stringBody_quoted rest n hbody
      exact ⟨body, by simp [htake]⟩
  · exact absurd h (Nat.lt_irrefl 0)

end Lexeme

/-- What the rules take for words, operators and literals. -/
theorem Rule.take_of_kind : ∀ rule ∈ all, match rule.kind? with
    | some .boolean => rule.take = Lexeme.word "true" ∨ rule.take = Lexeme.word "false"
    | some .string => rule.take = Lexeme.stringLiteral
    | some .number => rule.take = Lexeme.numeral
    | some .operator => rule.take = Lexeme.run Lexeme.isOperatorChar
    | some .typeName => rule.take = Lexeme.nameFrom Char.isUpper
    | some .identifier => rule.take = Lexeme.nameFrom beginsIdentifier
    | some (.keyword word) => rule.take = Lexeme.word word.text
    | _ => True := by
  intro rule hrule
  simp only [all, keyword, punctuation, List.mem_cons, List.not_mem_nil, or_false] at hrule
  rcases hrule with rfl | rfl | rfl | rfl | rfl | rfl | rfl | rfl | rfl | rfl | rfl | rfl | rfl |
      rfl | rfl | rfl | rfl | rfl | rfl | rfl | rfl | rfl | rfl <;>
    first | trivial | rfl | exact .inl rfl | exact .inr rfl

open Lexeme in
/-- The text of a lexeme is one that its kind admits. -/
theorem Lexeme.admitted {cs : List Char} {lexeme : Lexeme} {kind : Kind}
    (h : lexeme? cs = some lexeme) (hk : lexeme.kind? = some kind) :
    kind.Admits (String.ofList (cs.take lexeme.length)) := by
  obtain ⟨rule, hrule, hkind, hlength⟩ := Rule.of_first? h
  have hpos := lexeme.length_pos
  have htake := Rule.take_of_kind rule hrule
  rw [← hkind, hk] at htake
  rw [hlength] at hpos
  cases kind with
  | boolean =>
    rw [hlength]
    rcases htake with htake | htake <;> rw [htake] at hpos ⊢
    · exact .inl (by rw [take_word hpos]; rfl)
    · exact .inr (by rw [take_word hpos]; rfl)
  | string =>
    simp only at htake
    rw [htake] at hpos
    obtain ⟨body, hbody⟩ := stringLiteral_quoted hpos
    exact ⟨body, by rw [String.toList_ofList, hlength, htake, hbody]⟩
  | number =>
    simp only at htake
    rw [htake] at hpos
    unfold Kind.Admits
    rw [String.toList_ofList, hlength, htake]
    exact numeral_digits hpos
  | operator =>
    simp only at htake
    unfold Kind.Admits
    rw [String.toList_ofList, hlength, htake, take_run]
    exact fun c hc => List.mem_takeWhile_imp hc
  | typeName =>
    simp only at htake
    rw [htake] at hpos
    rw [hlength, htake]
    exact nameFrom_isWord (fun c hc => isNameChar_of_isAlpha (Bool.or_eq_true_iff.2 (.inl hc))) hpos
  | identifier =>
    simp only at htake
    rw [htake] at hpos
    rw [hlength, htake]
    refine nameFrom_isWord (fun c hc => ?_) hpos
    rcases Bool.or_eq_true_iff.1 hc with hc | hc
    · exact isNameChar_of_isAlpha (Bool.or_eq_true_iff.2 (.inr hc))
    · simp [isNameChar, hc]
  | _ =>
    intro fixed hfixed
    rw [Lexeme.take_eq h hk hfixed, String.ofList_toList]

/-- Each token of a text that is laid out has a word that its kind admits. -/
theorem Token.Layout.admitted {offset : Nat} {cs : List Char} {tokens : List (Token Nat)}
    (h : Layout offset cs tokens) : ∀ token ∈ tokens, token.Drawn Kind.Admits := by
  induction h with
  | done => exact List.forall_mem_nil _
  | token _ hl hk _ _ _ ih => exact List.forall_mem_cons.2 ⟨Lexeme.admitted hl hk, ih⟩

/-- The tokens of a source have texts that their kinds admit. -/
theorem Source.tokens_admitted {source : Source} {tokens : List (Token Position)}
    (h : source.tokens = .ok tokens) : ∀ token ∈ tokens, token.Drawn Kind.Admits := by
  obtain ⟨found, hscan, rfl⟩ := Source.tokens_eq_ok h
  refine List.forall_mem_map.2 fun token htoken => ?_
  exact (Token.layout_of_scanFrom 0 source.text.toList found hscan).admitted token htoken

end LetWhile
