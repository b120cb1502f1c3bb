import LetWhile.Proofs.Printing.Telling
import LetWhile.Proofs.Scanning.Words

/-!
# The characters of tokens

A string literal is the quoted form of a printable text (`Lexeme.quoted_of_stringLiteral`), and all
other tokens consist of solid characters: ASCII, and no white space. So every character of a token
takes up one byte, and a token does not end in white space.
-/

namespace LetWhile

open Text (quoted isBlank)
open Lexeme (stringBody stringLiteral isPlain)

/-! ## String literals -/

/-- A plain character of a string literal is printable and stands for itself. -/
theorem isPrintable_of_isPlain {c : Char} (h : isPlain c = true) :
    isPrintable c = true ∧ Text.quotedChar c = [c] := by
  have hprintable : isPrintable c = true := by
    simp only [isPlain, Bool.and_eq_true] at h
    simp only [isPrintable, Bool.and_eq_true]
    exact ⟨h.1.1, h.2⟩
  refine ⟨hprintable, ?_⟩
  rcases quotedChar_of_isPrintable hprintable with ⟨rfl, -⟩ | ⟨-, hchar⟩
  · cases h
  · exact hchar

/-- What a string literal holds up to its closing quote is a printable text, its quotes escaped. -/
theorem Lexeme.quoted_of_stringBody (cs : List Char) : ∀ n, stringBody cs = some n →
    ∃ value : List Char, (∀ c ∈ value, isPrintable c = true) ∧
      cs.take n = value.flatMap Text.quotedChar ++ ['"'] := by
  induction cs using stringBody.induct with
  | case1 =>
    rintro _ ⟨⟩
    exact ⟨[], List.forall_mem_nil _, rfl⟩
  | case2 cs ih =>
    intro n h
    rw [stringBody] at h
    obtain ⟨m, hm, rfl⟩ := Option.map_eq_some_iff.1 h
    obtain ⟨value, hvalue, htake⟩ := ih m hm
    refine ⟨'"' :: value, List.forall_mem_cons.2 ⟨rfl, hvalue⟩, ?_⟩
    rw [List.take_succ_cons, List.take_succ_cons, htake]
    rfl
  | case3 c cs _ _ hplain ih =>
    intro n h
    rw [stringBody_cons hplain] at h
    obtain ⟨m, hm, rfl⟩ := Option.map_eq_some_iff.1 h
    obtain ⟨value, hvalue, htake⟩ := ih m hm
    obtain ⟨hprintable, hchar⟩ := isPrintable_of_isPlain hplain
    refine ⟨c :: value, List.forall_mem_cons.2 ⟨hprintable, hvalue⟩, ?_⟩
    rw [List.take_succ_cons, htake, List.flatMap_cons, hchar]
    rfl
  | case4 c cs hquote hescape hplain =>
    intro n h
    rw [stringBody_eq_none hquote hescape hplain] at h
    cases h
  | case5 => rintro _ ⟨⟩

/-- A string literal at the front of a text is the quoted form of a printable text. -/
theorem Lexeme.quoted_of_stringLiteral {cs : List Char} (h : 0 < stringLiteral cs) :
    ∃ value : String, (∀ c ∈ value.toList, isPrintable c = true) ∧
      (quoted value).toList = cs.take (stringLiteral cs) := by
  unfold stringLiteral at h ⊢
  split at h
  · rename_i cs
    cases hbody : stringBody cs with
    | none =>
      rw [hbody] at h
      exact absurd h (Nat.lt_irrefl 0)
    | some n =>
      obtain ⟨value, hvalue, htake⟩ := quoted_of_stringBody cs n hbody
      refine ⟨String.ofList value, by rwa [String.toList_ofList], ?_⟩
      rw [Text.toList_quoted, String.toList_ofList, ← htake]
      rfl
  · exact absurd h (Nat.lt_irrefl 0)

/-- A string token is the quoted form of a printable text. -/
theorem Lexeme.quoted_of_kind {cs : List Char} {lexeme : Lexeme} (h : lexeme? cs = some lexeme)
    (hk : lexeme.kind? = some .string) :
    ∃ value : String, (∀ c ∈ value.toList, isPrintable c = true) ∧
      (quoted value).toList = cs.take lexeme.length := by
  obtain ⟨rule, hrule, hkind, hlength⟩ := Rule.of_first? h
  have htake := Rule.take_of_kind rule hrule
  have hpos := lexeme.length_pos
  rw [← hkind, hk] at htake
  simp only at htake
  rw [hlength, htake] at hpos ⊢
  exact quoted_of_stringLiteral hpos

/-- A text that is a string literal wherever it stands is the quoted form of a printable text. -/
theorem Kind.Owns.quoted {text : String} (h : Kind.string.Owns text) :
    ∃ value : String, (∀ c ∈ value.toList, isPrintable c = true) ∧ Text.quoted value = text := by
  obtain ⟨value, hvalue, hquoted⟩ := Lexeme.quoted_of_kind (h.lexeme [] nofun) rfl
  refine ⟨value, hvalue, String.toList_inj.1 (hquoted.trans ?_)⟩
  simp only [List.append_nil, ← String.length_toList, List.take_length]

/-! ## Solid characters -/

namespace Text

/-- Whether a character is one of ASCII behind the space. -/
def isSolid (c : Char) : Bool := 0x20 < c.toNat && c.toNat < 0x80

variable {c : Char}

/-- The solid characters are the visible ones of ASCII. -/
theorem isSolid_iff : isSolid c = true ↔ 0x20 < c.toNat ∧ c.toNat < 0x80 := by
  simp [isSolid]

/-- A solid character is no white space. -/
theorem isBlank_of_isSolid (h : isSolid c = true) : isBlank c = false := by
  obtain ⟨hlow, hhigh⟩ := isSolid_iff.1 h
  simp [isBlank, inRanges, blankCodePoints]
  omega

/-- A solid character takes up one byte. -/
theorem utf8Size_of_isSolid (h : isSolid c = true) : c.utf8Size = 1 := by
  obtain ⟨-, hhigh⟩ := isSolid_iff.1 h
  rw [Char.utf8Size_eq_one_iff, UInt32.le_iff_toNat_le]
  exact Nat.le_of_lt_succ hhigh

/-- Characters of names are solid. -/
theorem isSolid_of_isNameChar (h : Lexeme.isNameChar c = true) : isSolid c = true :=
  isSolid_iff.2 (Lexeme.toNat_lt_of_isNameChar h)

/-- Characters of operators are solid. -/
theorem isSolid_of_isOperatorChar (h : Lexeme.isOperatorChar c = true) : isSolid c = true := by
  have hall : "!@$%^&*<>?/|.=+-".toList.all isSolid = true := by decide
  simp only [Lexeme.isOperatorChar, decide_eq_true_eq] at h
  exact List.all_eq_true.1 hall c h

/-- Digits are solid. -/
theorem isSolid_of_isDigit (h : c.isDigit = true) : isSolid c = true := by
  obtain ⟨hlow, hhigh⟩ := Lexeme.isDigit_iff_toNat.1 h
  exact isSolid_iff.2 ⟨by omega, by omega⟩

/-- A printable character is solid, or a space. -/
theorem isSolid_of_isPrintable (h : isPrintable c = true) : isSolid c = true ∨ c = ' ' := by
  simp only [isPrintable, Bool.and_eq_true, decide_eq_true_eq] at h
  have hlow : 0x20 ≤ c.toNat := UInt32.le_iff_toNat_le.1 h.1.1
  have hhigh : c.toNat ≤ 0x7e := UInt32.le_iff_toNat_le.1 h.1.2
  rcases Nat.eq_or_lt_of_le hlow with heq | hlt
  · exact .inr (Char.toNat_inj.1 heq.symm)
  · exact .inl (isSolid_iff.2 ⟨hlt, by omega⟩)

end Text

open Text (isSolid)

/-- Texts that a kind of token always has are solid. -/
theorem Kind.solid_of_spelling? {kind : Kind} {text : String} (h : kind.spelling? = some text) :
    ∀ c ∈ text.toList, isSolid c = true := by
  have hall : text.toList.all isSolid = true := by
    cases kind with
    | keyword word =>
      cases h
      cases word <;> decide
    | opening bracket | closing bracket =>
      cases h
      cases bracket <;> decide
    | boolean | string | number | operator | typeName | identifier => cases h
    | _ =>
      cases h
      decide
  exact List.all_eq_true.1 hall

/-- All characters of a token that is no string literal are solid. -/
theorem Kind.Admits.isSolid {kind : Kind} {text : String} (h : kind.Admits text)
    (hne : kind ≠ .string) : ∀ c ∈ text.toList, isSolid c = true := by
  cases hspelling : kind.spelling? with
  | some fixed =>
    rw [Kind.admits_wellSpelled kind text h fixed hspelling]
    exact Kind.solid_of_spelling? hspelling
  | none =>
    cases kind with
    | string => exact absurd rfl hne
    | boolean =>
      have hall : ("true".toList.all Text.isSolid && "false".toList.all Text.isSolid) = true := by
        decide
      obtain ⟨htrue, hfalse⟩ := Bool.and_eq_true_iff.1 hall
      rcases h with rfl | rfl
      · exact List.all_eq_true.1 htrue
      · exact List.all_eq_true.1 hfalse
    | number => exact fun c hc => Text.isSolid_of_isDigit (h c hc)
    | operator => exact fun c hc => Text.isSolid_of_isOperatorChar (h c hc)
    | typeName | identifier => exact fun c hc => Text.isSolid_of_isNameChar (h.chars c hc)
    | _ => cases hspelling

namespace Lexeme
variable {cs : List Char} {lexeme : Lexeme} {kind : Kind}

/-- The characters of a token are solid, unless it is a string. -/
theorem isSolid_of_kind (h : lexeme? cs = some lexeme) (hk : lexeme.kind? = some kind)
    (hne : kind ≠ .string) : ∀ c ∈ cs.take lexeme.length, isSolid c = true := by
  have hsolid := (admitted h hk).isSolid hne
  rwa [String.toList_ofList] at hsolid

/-- The characters of a token are solid, but for the spaces in string literals. -/
theorem isSolid_or_space (h : lexeme? cs = some lexeme) (hk : lexeme.kind? = some kind) :
    ∀ c ∈ cs.take lexeme.length, isSolid c = true ∨ c = ' ' := by
  by_cases hstring : kind = .string
  · subst hstring
    obtain ⟨value, hprintable, hquoted⟩ := quoted_of_kind h hk
    have hbody : ∀ c ∈ value.toList.flatMap Text.quotedChar, isSolid c = true ∨ c = ' ' := by
      intro c hc
      obtain ⟨d, hd, hc⟩ := List.mem_flatMap.1 hc
      rcases quotedChar_of_isPrintable (hprintable d hd) with ⟨-, hchar⟩ | ⟨-, hchar⟩ <;>
        rw [hchar] at hc
      · rcases List.mem_cons.1 hc with rfl | hc
        · exact .inl rfl
        · exact .inl (List.mem_singleton.1 hc ▸ rfl)
      · exact List.mem_singleton.1 hc ▸ Text.isSolid_of_isPrintable (hprintable d hd)
    rw [← hquoted, Text.toList_quoted]
    exact List.forall_mem_cons.2 ⟨.inl rfl, List.forall_mem_append.2
      ⟨hbody, List.forall_mem_singleton.2 (.inl rfl)⟩⟩
  · exact fun c hc => .inl (isSolid_of_kind h hk hstring c hc)

/-- The last character of a token is solid. -/
theorem isSolid_last (h : lexeme? cs = some lexeme) (hk : lexeme.kind? = some kind) :
    ∀ c ∈ (cs.take lexeme.length).getLast?, isSolid c = true := by
  intro c hc
  by_cases hstring : kind = .string
  · subst hstring
    obtain ⟨value, -, hquoted⟩ := quoted_of_kind h hk
    rw [← hquoted, Text.toList_quoted, ← List.cons_append, List.getLast?_concat] at hc
    cases hc
    rfl
  · exact isSolid_of_kind h hk hstring c (List.mem_of_getLast? hc)

end Lexeme

end LetWhile
