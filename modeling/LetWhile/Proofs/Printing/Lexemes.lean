import LetWhile.Operator
import LetWhile.Proofs.Printing.Scanning
import LetWhile.Text.Quoted

/-!
# Scanning single lexemes

Which rule takes a word, an operator, a string literal or a punctuation mark that nothing follows
into which it would go on (`Kind.Owns`): the rules are tried in order, and those before it take
nothing. Reserved words are tried before names and take only what is exactly their text
(`word_append`).
-/

namespace LetWhile

open Text (isBlank isWordChar)

namespace Lexeme

/-! ## Characters -/

/-- Characters of names are characters of words. -/
theorem isWordChar_of_isNameChar {c : Char} (h : isNameChar c = true) : isWordChar c = true := by
  simp only [isNameChar, Bool.or_eq_true] at h
  simp only [isWordChar, Bool.or_eq_true]
  exact .inl h

/-- The upper-case letters are those of ASCII. -/
theorem isUpper_iff_toNat {c : Char} : c.isUpper = true ↔ 65 ≤ c.toNat ∧ c.toNat ≤ 90 := by
  show decide ('A'.val ≤ c.val ∧ c.val ≤ 'Z'.val) = true ↔ _
  rw [decide_eq_true_iff]
  exact and_congr UInt32.le_iff_toNat_le UInt32.le_iff_toNat_le

/-- The lower-case letters are those of ASCII. -/
theorem isLower_iff_toNat {c : Char} : c.isLower = true ↔ 97 ≤ c.toNat ∧ c.toNat ≤ 122 := by
  show (decide ('a'.val ≤ c.val) && decide (c.val ≤ 'z'.val)) = true ↔ _
  rw [Bool.and_eq_true, decide_eq_true_iff, decide_eq_true_iff]
  exact and_congr UInt32.le_iff_toNat_le UInt32.le_iff_toNat_le

/-- The digits are those of ASCII. -/
theorem isDigit_iff_toNat {c : Char} : c.isDigit = true ↔ 48 ≤ c.toNat ∧ c.toNat ≤ 57 :=
  Char.isDigit_iff_toNat

/-- Characters of names are visible characters of ASCII. -/
theorem toNat_lt_of_isNameChar {c : Char} (h : isNameChar c = true) :
    0x20 < c.toNat ∧ c.toNat < 0x80 := by
  have h : ((c.isUpper || c.isLower) || c.isDigit || c == '_') = true := h
  simp only [Bool.or_eq_true, isUpper_iff_toNat, isLower_iff_toNat, isDigit_iff_toNat,
    beq_iff_eq] at h
  rcases h with ((h | h) | h) | rfl
  · omega
  · omega
  · omega
  · decide

/-- No character of names is white space. -/
theorem isBlank_of_isNameChar {c : Char} (h : isNameChar c = true) : isBlank c = false := by
  obtain ⟨hlow, hhigh⟩ := toNat_lt_of_isNameChar h
  simp [isBlank, Text.inRanges, Text.blankCodePoints]
  omega

/-- A character of names is none that is not one. -/
theorem ne_of_isNameChar {c d : Char} (h : isNameChar c = true) (hd : isNameChar d = false) :
    c ≠ d := by
  rintro rfl
  exact absurd (h.symm.trans hd) nofun

/-- No character of names is one of operators. -/
theorem isOperatorChar_of_isNameChar {c : Char} (h : isNameChar c = true) :
    isOperatorChar c = false := by
  have hall : "!@$%^&*<>?/|.=+-".toList.all (!isNameChar ·) = true := by decide
  simp only [isOperatorChar, decide_eq_false_iff_not]
  intro hc
  have := List.all_eq_true.1 hall c hc
  rw [h] at this
  cases this

/-- A character of operators is none that is not one. -/
theorem ne_of_isOperatorChar {c d : Char} (h : isOperatorChar c = true)
    (hd : isOperatorChar d = false) : c ≠ d := by
  rintro rfl
  exact absurd (h.symm.trans hd) nofun

/-- No character of operators is white space or a digit. -/
theorem isBlank_of_isOperatorChar {c : Char} (h : isOperatorChar c = true) :
    isBlank c = false ∧ c.isDigit = false := by
  have hall : "!@$%^&*<>?/|.=+-".toList.all (fun d => !isBlank d && !d.isDigit) = true := by decide
  simp only [isOperatorChar, decide_eq_true_eq] at h
  simpa using List.all_eq_true.1 hall c h

/-! ## Rules that take nothing -/

/-- A run of a class is empty in front of a character that is not of the class. -/
theorem run_cons_of_not {p : Char → Bool} {c : Char} (h : p c = false) (cs : List Char) :
    run p (c :: cs) = 0 := by
  simp [run, h]

/-- A run of a class is not empty in front of a character of the class. -/
theorem run_pos {p : Char → Bool} {c : Char} (h : p c = true) (cs : List Char) :
    0 < run p (c :: cs) := by
  simp [run, h]

/-- A text of characters of a class is a run of it, if none of them follows. -/
theorem run_append {p : Char → Bool} {text rest : List Char} (h : ∀ c ∈ text, p c = true)
    (hrest : ∀ c ∈ rest.head?, p c = false) : run p (text ++ rest) = text.length := by
  rw [run, List.takeWhile_append_of_pos h, List.length_append]
  cases rest with
  | nil => rfl
  | cons c rest => simp [hrest c rfl]

/-- A fixed text is not found where it does not stand. -/
theorem exactly_eq_zero {text : String} {cs : List Char} (h : ¬ text.toList <+: cs) :
    exactly text cs = 0 := by
  simp [exactly, h]

/-- A fixed text is not found in front of another character than its first. -/
theorem exactly_cons {text : String} {mark c : Char} {more : List Char}
    (ht : text.toList = mark :: more) (hne : c ≠ mark) (cs : List Char) :
    exactly text (c :: cs) = 0 := by
  refine exactly_eq_zero fun hprefix => hne ?_
  rw [ht] at hprefix
  exact (List.cons_prefix_cons.1 hprefix).1.symm

/-- A reserved word is not found in front of another character than its first. -/
theorem word_cons {text : String} {mark c : Char} {more : List Char}
    (ht : text.toList = mark :: more) (hne : c ≠ mark) (cs : List Char) :
    Lexeme.word text (c :: cs) = 0 := by
  rw [Lexeme.word, exactly_cons ht hne, ite_self]

/-- There is no comment without two slashes. -/
theorem comment_eq_zero {cs : List Char} (h : ¬ ['/', '/'] <+: cs) : comment cs = 0 := by
  unfold comment
  split
  · exact absurd (by simp) h
  · rfl

/-- There is no string literal without a quote. -/
theorem stringLiteral_eq_zero {c : Char} (h : c ≠ '"') (cs : List Char) :
    stringLiteral (c :: cs) = 0 := by
  unfold stringLiteral
  split
  · rename_i heq
    cases heq
    exact absurd rfl h
  · rfl

/-- There is no number without a digit. -/
theorem numeral_eq_zero {c : Char} (h : c.isDigit = false) (cs : List Char) :
    numeral (c :: cs) = 0 := by
  unfold numeral
  rw [run_cons_of_not h, ite_self]

/-- There is no name where the first character cannot begin one. -/
theorem nameFrom_eq_zero {begins : Char → Bool} {c : Char} (h : begins c = false)
    (cs : List Char) : nameFrom begins (c :: cs) = 0 := by
  simp [nameFrom, h]

/-! ## Words -/

/-- A text of one class of characters is not taken from a shorter text of the class. -/
theorem prefix_of_prefix_append {p : Char → Bool} {text word rest : List Char}
    (htext : ∀ c ∈ text, p c = true) (hrest : ∀ c ∈ rest.head?, p c = false)
    (h : text <+: word ++ rest) : text <+: word := by
  obtain ⟨tail, h⟩ := h
  rcases List.append_eq_append_iff.1 h with ⟨mid, hword, -⟩ | ⟨mid, rfl, hmid⟩
  · exact ⟨mid, hword.symm⟩
  · cases mid with
    | nil => exact ⟨[], by simp⟩
    | cons c mid =>
      rw [hmid] at hrest
      have hfalse : p c = false := hrest c rfl
      exact absurd ((htext c (by simp)).symm.trans hfalse) nofun

/-- A word ends where no character of words follows. -/
theorem wordEnds_iff {rest : List Char} :
    wordEnds rest = true ↔ ∀ c ∈ rest.head?, isWordChar c = false := by
  cases rest <;> simp [wordEnds]

/-- What is no character of words is none of names. -/
theorem isNameChar_of_isWordChar {c : Char} (h : isWordChar c = false) : isNameChar c = false :=
  Bool.eq_false_iff.2 fun hc => absurd (h.symm.trans (isWordChar_of_isNameChar hc)) nofun

/-- A word is taken from a text that begins with it, and not from one that begins with another
word. -/
theorem word_append {text word : String} {rest : List Char}
    (htext : ∀ c ∈ text.toList, isNameChar c = true)
    (hword : ∀ c ∈ word.toList, isNameChar c = true)
    (hrest : ∀ c ∈ rest.head?, isWordChar c = false) :
    Lexeme.word text (word.toList ++ rest) = if word = text then text.length else 0 := by
  split
  · rename_i heq
    subst heq
    have hdrop : (word.toList ++ rest).drop word.length = rest := by
      rw [← String.length_toList, List.drop_left]
    rw [Lexeme.word, hdrop, if_pos (wordEnds_iff.2 hrest), exactly, if_pos]
    simp
  · rename_i hne
    by_cases hprefix : text.toList <+: word.toList ++ rest
    · obtain ⟨tail, htail⟩ := prefix_of_prefix_append htext
        (fun c hc => isNameChar_of_isWordChar (hrest c hc)) hprefix
      rw [Lexeme.word, if_neg]
      rw [← htail, List.append_assoc, ← String.length_toList, List.drop_left]
      cases tail with
      | nil =>
        rw [List.append_nil, String.toList_inj] at htail
        exact absurd htail.symm hne
      | cons c tail =>
        have hc := hword c (by simp [← htail])
        simp [wordEnds, isWordChar_of_isNameChar hc]
    · rw [Lexeme.word, exactly_eq_zero hprefix, ite_self]

end Lexeme

open Lexeme

/-! ## Texts of tokens -/

namespace Kind

/-- The characters into which a token of a kind goes on. -/
def goesOn : Kind → Char → Bool
  | keyword _ | boolean | number | typeName | identifier => isWordChar
  | operator => isOperatorChar
  | _ => fun _ => false

/-- What may follow a token of a kind: nothing into which it goes on. -/
def EndsBefore (kind : Kind) (rest : List Char) : Prop := ∀ c ∈ rest.head?, kind.goesOn c = false

/-- Every token ends in front of a boundary. -/
theorem EndsBefore.of_boundary {rest : List Char} (h : Boundary rest) (kind : Kind) :
    kind.EndsBefore rest := by
  cases rest with
  | nil => exact nofun
  | cons c rest =>
    rintro _ ⟨⟩
    cases kind with
    | keyword | boolean | number | typeName | identifier => exact h.1
    | operator => exact h.2
    | _ => rfl

/-- A text is a token of a kind wherever it ends. -/
structure Owns (kind : Kind) (text : String) : Prop where
  length_pos : 0 < text.length
  lexeme (rest : List Char) : kind.EndsBefore rest →
    lexeme? (text.toList ++ rest) = some ⟨some kind, text.length, length_pos⟩

/-- The text of a token is scanned as that token in front of what is scanned behind it. -/
theorem Owns.scans {kind : Kind} {text : String} (h : kind.Owns text) {rest : List Char}
    {more : List (Token Unit)} (hends : kind.EndsBefore rest) (hrest : Scans rest more) :
    Scans (text.toList ++ rest) (.placeless kind text :: more) := by
  have hmore : Scans ((text.toList ++ rest).drop text.length) more := by
    rw [← String.length_toList, List.drop_left]
    exact hrest
  have := Scans.token (h.lexeme rest hends) rfl hmore
  simp only [← String.length_toList, List.take_left, String.ofList_toList] at this
  exact this

/-- The text of a token is scanned as that token where a boundary follows. -/
theorem Owns.writes {kind : Kind} {text : String} (h : kind.Owns text) :
    Writes text.toList [.placeless kind text] :=
  fun _ _ hb hrest => h.scans (.of_boundary hb kind) hrest

/-- The text of a token that never goes on is scanned as that token whatever follows. -/
theorem Owns.opens {kind : Kind} {text : String} (h : kind.Owns text)
    (hgoes : ∀ c, kind.goesOn c = false) : Opens text.toList [.placeless kind text] :=
  fun _ _ hrest => h.scans (fun c _ => hgoes c) hrest

/-- A text that a rule takes wherever it ends is a token of the kind of the rule. -/
theorem Owns.of_rule {text : String} {kind : Kind} (skipped : List Rule) (rule : Rule)
    (others : List Rule) (hall : Rule.all = skipped ++ rule :: others)
    (hkind : rule.kind? = some kind) (hne : 0 < text.length)
    (hskip : ∀ rest, kind.EndsBefore rest → ∀ other ∈ skipped, other.take (text.toList ++ rest) = 0)
    (htake : ∀ rest, kind.EndsBefore rest → rule.take (text.toList ++ rest) = text.length) :
    kind.Owns text := by
  refine ⟨hne, fun rest hends => ?_⟩
  simp only [lexeme?, hall, ← hkind]
  exact Rule.first?_append (hskip rest hends) (htake rest hends) hne

end Kind

open Kind (Owns)

/-! ## Reserved words -/

/-- The reserved words with their kinds, in the order in which they are tried. -/
def reservedWords : List (Kind × String) :=
  [(.keyword .ifWord, "if"), (.keyword .elseWord, "else"), (.keyword .whileWord, "while"),
    (.keyword .letWord, "let"), (.keyword .returnWord, "return"), (.boolean, "true"),
    (.boolean, "false")]

/-- The rule of a reserved word. -/
def wordRule (word : Kind × String) : Rule := ⟨some word.1, Lexeme.word word.2⟩

/-- The rules that are tried before those of words. -/
def markRules : List Rule := Rule.all.take 11

/-- The rules that are tried after those of reserved words. -/
def laterRules : List Rule := Rule.all.drop 18

/-- The rules are those of marks, those of reserved words and the later ones. -/
theorem all_eq : Rule.all = markRules ++ (reservedWords.map wordRule ++ laterRules) := rfl

/-- Reserved words consist of characters of names. -/
theorem isNameChar_of_reserved : ∀ word ∈ reservedWords, ∀ c ∈ word.2.toList,
    isNameChar c = true := by
  have hall : ∀ word ∈ reservedWords, word.2.toList.all isNameChar = true := by decide
  exact fun word h => List.all_eq_true.1 (hall word h)

/-- A word: characters of names, the first of which is of the given class. -/
structure IsWord (begins : Char → Bool) (word : String) : Prop where
  head : ∃ c cs, word.toList = c :: cs ∧ begins c = true
  chars : ∀ c ∈ word.toList, isNameChar c = true

/-- Whether a text is a word can be read off its characters. -/
theorem isWord_iff {begins : Char → Bool} {word : String} : IsWord begins word ↔
    word.toList.head?.any begins = true ∧ word.toList.all isNameChar = true := by
  rw [List.all_eq_true]
  refine ⟨fun h => ⟨?_, h.chars⟩, fun h => ⟨?_, h.2⟩⟩
  · obtain ⟨c, cs, heq, hc⟩ := h.head
    simpa [heq] using hc
  · obtain ⟨hhead, -⟩ := h
    cases hcs : word.toList with
    | nil => simp [hcs] at hhead
    | cons c cs => exact ⟨c, cs, rfl, by simpa [hcs] using hhead⟩

instance (begins : Char → Bool) (word : String) : Decidable (IsWord begins word) :=
  decidable_of_iff _ isWord_iff.symm

/-- A word is not empty. -/
theorem IsWord.length_pos {begins : Char → Bool} {word : String} (h : IsWord begins word) :
    0 < word.length := by
  obtain ⟨c, cs, heq, -⟩ := h.head
  rw [← String.length_toList, heq]
  exact Nat.succ_pos _

/-- Blanks, comments and marks do not begin like a word. -/
theorem markRules_take {begins : Char → Bool} {word : String} (h : IsWord begins word)
    (rest : List Char) : ∀ rule ∈ markRules, rule.take (word.toList ++ rest) = 0 := by
  obtain ⟨c, cs, heq, -⟩ := h.head
  have hc : isNameChar c = true := h.chars c (by simp [heq])
  rw [heq, List.cons_append]
  generalize cs ++ rest = cs
  have hne {mark : Char} (hm : isNameChar mark = false) : c ≠ mark := ne_of_isNameChar hc hm
  have hcomment : ¬ ['/', '/'] <+: c :: cs := fun hprefix =>
    hne (by decide) (List.cons_prefix_cons.1 hprefix).1.symm
  simp only [markRules, Rule.all, List.take, List.forall_mem_cons, Rule.punctuation]
  exact ⟨run_cons_of_not (isBlank_of_isNameChar hc) cs, comment_eq_zero hcomment,
    exactly_cons rfl (hne (by decide)) cs, exactly_cons rfl (hne (by decide)) cs,
    exactly_cons rfl (hne (by decide)) cs, exactly_cons rfl (hne (by decide)) cs,
    exactly_cons rfl (hne (by decide)) cs, exactly_cons rfl (hne (by decide)) cs,
    exactly_cons rfl (hne (by decide)) cs, exactly_cons rfl (hne (by decide)) cs,
    exactly_cons rfl (hne (by decide)) cs, nofun⟩

/-- The rule of a reserved word takes nothing from another word. -/
theorem wordRule_take {words : List (Kind × String)} (hwords : ∀ other ∈ words, other ∈ reservedWords)
    {begins : Char → Bool} {word : String} (h : IsWord begins word)
    (hne : ∀ other ∈ words, other.2 ≠ word) {rest : List Char}
    (hrest : ∀ c ∈ rest.head?, isWordChar c = false) :
    ∀ rule ∈ words.map wordRule, rule.take (word.toList ++ rest) = 0 := by
  intro rule hrule
  obtain ⟨other, hother, rfl⟩ := List.mem_map.1 hrule
  have htext := isNameChar_of_reserved other (hwords other hother)
  exact (word_append htext h.chars hrest).trans (if_neg (hne other hother).symm)

/-- A reserved word is a word. -/
theorem isWord_of_reserved {word : Kind × String} (h : word ∈ reservedWords) :
    IsWord (fun _ => true) word.2 := by
  refine ⟨?_, isNameChar_of_reserved word h⟩
  have hne : ∀ word ∈ reservedWords, word.2.toList ≠ [] := by decide
  obtain ⟨c, cs, heq⟩ := List.exists_cons_of_ne_nil (hne word h)
  exact ⟨c, cs, heq, rfl⟩

/-- Tokens of reserved words go on into characters of words. -/
theorem goesOn_of_reserved : ∀ word ∈ reservedWords, word.1.goesOn = isWordChar := by
  simp [reservedWords, Kind.goesOn]

/-- A reserved word is a token of its kind. -/
theorem Kind.Owns.reserved {kind : Kind} {word : String} (h : (kind, word) ∈ reservedWords) :
    kind.Owns word := by
  have hgoes : kind.goesOn = isWordChar := goesOn_of_reserved _ h
  have hword := isWord_of_reserved h
  obtain ⟨before, after, heq⟩ := List.append_of_mem h
  have hnodup : (reservedWords.map Prod.snd).Nodup := by decide
  have hne : ∀ other ∈ before, other.2 ≠ word := by
    rw [heq, List.map_append, List.map_cons, List.nodup_append] at hnodup
    intro other hother
    exact hnodup.2.2 _ (List.mem_map_of_mem hother) _ (.head _)
  have hbefore : ∀ other ∈ before, other ∈ reservedWords := fun other hother => by
    rw [heq]
    exact List.mem_append_left _ hother
  refine .of_rule (markRules ++ before.map wordRule) (wordRule (kind, word))
    (after.map wordRule ++ laterRules) ?_ rfl hword.length_pos ?_ ?_
  · rw [all_eq, heq]
    simp
  · intro rest hrest
    rw [EndsBefore, hgoes] at hrest
    exact List.forall_mem_append.2
      ⟨markRules_take hword rest, wordRule_take hbefore hword hne hrest⟩
  · intro rest hrest
    rw [EndsBefore, hgoes] at hrest
    exact (word_append hword.chars hword.chars hrest).trans (if_pos rfl)

/-- A reserved word is scanned as a token of its kind. -/
theorem Writes.reserved (kind : Kind) (word : String) (h : (kind, word) ∈ reservedWords) :
    Writes word.toList [.placeless kind word] := (Owns.reserved h).writes

/-! ## Names and numbers -/

/-- A word that is not reserved. -/
structure IsName (begins : Char → Bool) (word : String) : Prop extends IsWord begins word where
  free : ∀ other ∈ reservedWords, other.2 ≠ word

/-- A name is a word that is none of the reserved ones. -/
theorem isName_iff {begins : Char → Bool} {word : String} : IsName begins word ↔
    IsWord begins word ∧ ∀ other ∈ reservedWords, other.2 ≠ word :=
  ⟨fun h => ⟨h.toIsWord, h.free⟩, fun h => ⟨h.1, h.2⟩⟩

instance (begins : Char → Bool) (word : String) : Decidable (IsName begins word) :=
  decidable_of_iff _ isName_iff.symm

/-- What a name begins with. -/
def beginsIdentifier (c : Char) : Bool := c.isLower || c == '_'

/-- No digit begins an identifier. -/
theorem not_isDigit_of_beginsIdentifier {c : Char} (h : beginsIdentifier c = true) :
    c.isDigit = false := by
  simp only [beginsIdentifier, Bool.or_eq_true, isLower_iff_toNat, beq_iff_eq] at h
  rw [Bool.eq_false_iff, Ne, isDigit_iff_toNat]
  rcases h with h | rfl
  · omega
  · decide

/-- No upper-case letter begins an identifier. -/
theorem not_isUpper_of_beginsIdentifier {c : Char} (h : beginsIdentifier c = true) :
    c.isUpper = false := by
  simp only [beginsIdentifier, Bool.or_eq_true, isLower_iff_toNat, beq_iff_eq] at h
  rw [Bool.eq_false_iff, Ne, isUpper_iff_toNat]
  rcases h with h | rfl
  · omega
  · decide

/-- A word that is not reserved is left to the later rules. -/
theorem Kind.Owns.of_laterRule {begins : Char → Bool} {word : String} {kind : Kind}
    (hgoes : kind.goesOn = isWordChar) (h : IsName begins word) (skipped : List Rule) (rule : Rule)
    (others : List Rule) (hlater : laterRules = skipped ++ rule :: others)
    (hkind : rule.kind? = some kind)
    (hskip : ∀ rest, kind.EndsBefore rest → ∀ other ∈ skipped, other.take (word.toList ++ rest) = 0)
    (htake : ∀ rest, kind.EndsBefore rest → rule.take (word.toList ++ rest) = word.length) :
    kind.Owns word := by
  refine .of_rule (markRules ++ reservedWords.map wordRule ++ skipped) rule others ?_ hkind
    h.length_pos ?_ htake
  · rw [all_eq, hlater]
    simp
  · intro rest hrest
    refine List.forall_mem_append.2 ⟨List.forall_mem_append.2 ⟨markRules_take h.toIsWord rest, ?_⟩,
      hskip rest hrest⟩
    rw [EndsBefore, hgoes] at hrest
    exact wordRule_take (fun _ h => h) h.toIsWord h.free hrest

/-- A name takes all its characters. -/
theorem nameFrom_append {begins : Char → Bool} {word : String} (h : IsWord begins word)
    {rest : List Char} (hrest : ∀ c ∈ rest.head?, isWordChar c = false) :
    nameFrom begins (word.toList ++ rest) = word.length := by
  obtain ⟨c, cs, heq, hc⟩ := h.head
  have hcs : ∀ d ∈ cs, isNameChar d = true := fun d hd => h.chars d (by simp [heq, hd])
  rw [← String.length_toList, heq, List.cons_append, nameFrom, if_pos hc,
    run_append hcs fun c hc => isNameChar_of_isWordChar (hrest c hc), List.length_cons, Nat.add_comm]

/-- A name is an identifier if it begins like one. -/
theorem Kind.Owns.identifier {word : String} (h : IsName beginsIdentifier word) :
    Kind.identifier.Owns word := by
  refine .of_laterRule rfl h (laterRules.take 4) ⟨some .identifier, nameFrom beginsIdentifier⟩ [] rfl
    rfl ?_ fun rest hrest => nameFrom_append h.toIsWord hrest
  intro rest hrest
  obtain ⟨c, cs, heq, hc⟩ := h.head
  have hname : isNameChar c = true := h.chars c (by simp [heq])
  have hdigit : c.isDigit = false := not_isDigit_of_beginsIdentifier hc
  have hupper : c.isUpper = false := not_isUpper_of_beginsIdentifier hc
  rw [heq, List.cons_append]
  simp only [laterRules, Rule.all, List.drop, List.take, List.forall_mem_cons]
  exact ⟨stringLiteral_eq_zero (ne_of_isNameChar hname (by decide)) _, numeral_eq_zero hdigit _,
    run_cons_of_not (isOperatorChar_of_isNameChar hname) _, nameFrom_eq_zero hupper _, nofun⟩

/-- A name that begins like an identifier is scanned as one. -/
theorem Writes.identifier {word : String} (h : IsName beginsIdentifier word) :
    Writes word.toList [.placeless .identifier word] := (Owns.identifier h).writes

/-- A reserved word begins with a lower-case letter. -/
theorem IsName.of_begins {begins : Char → Bool} {word : String} (h : IsWord begins word)
    (hb : ∀ c, begins c = true → c.isLower = false) : IsName begins word := by
  refine ⟨h, ?_⟩
  intro other hother hword
  subst hword
  obtain ⟨c, cs, heq, hc⟩ := h.head
  have hall : ∀ word ∈ reservedWords, word.2.toList.head?.all Char.isLower = true := by decide
  have hlower : c.isLower = true := by simpa [heq] using hall other hother
  exact absurd (hlower.symm.trans (hb c hc)) nofun

/-- A word with an upper-case first letter is the name of a type. -/
theorem Kind.Owns.typeName {word : String} (h : IsWord Char.isUpper word) :
    Kind.typeName.Owns word := by
  have hname : IsName Char.isUpper word := .of_begins h fun c hc => by
    rw [isUpper_iff_toNat] at hc
    rw [Bool.eq_false_iff, Ne, isLower_iff_toNat]
    omega
  refine .of_laterRule rfl hname (laterRules.take 3) ⟨some .typeName, nameFrom Char.isUpper⟩
    (laterRules.drop 4) rfl rfl ?_ fun rest hrest => nameFrom_append h hrest
  intro rest hrest
  obtain ⟨c, cs, heq, hc⟩ := h.head
  have hchar : isNameChar c = true := h.chars c (by simp [heq])
  have hdigit : c.isDigit = false := by
    rw [isUpper_iff_toNat] at hc
    rw [Bool.eq_false_iff, Ne, isDigit_iff_toNat]
    omega
  rw [heq, List.cons_append]
  simp only [laterRules, Rule.all, List.drop, List.take, List.forall_mem_cons]
  exact ⟨stringLiteral_eq_zero (ne_of_isNameChar hchar (by decide)) _, numeral_eq_zero hdigit _,
    run_cons_of_not (isOperatorChar_of_isNameChar hchar) _, nofun⟩

/-- A word with an upper-case first letter is scanned as the name of a type. -/
theorem Writes.typeName {word : String} (h : IsWord Char.isUpper word) :
    Writes word.toList [.placeless .typeName word] := (Owns.typeName h).writes

/-- Digits are a number. -/
theorem Kind.Owns.number {word : String} (hne : 0 < word.length)
    (hdigits : ∀ c ∈ word.toList, c.isDigit = true) : Kind.number.Owns word := by
  have hword : IsWord Char.isDigit word := by
    refine ⟨?_, fun c hc => ?_⟩
    · obtain ⟨c, cs, heq⟩ := List.exists_cons_of_ne_nil
        (List.ne_nil_of_length_pos (String.length_toList ▸ hne))
      exact ⟨c, cs, heq, hdigits c (heq ▸ List.mem_cons_self)⟩
    · simp [isNameChar, Char.isAlphanum, hdigits c hc]
  have hname : IsName Char.isDigit word := .of_begins hword fun c hc => by
    rw [isDigit_iff_toNat] at hc
    rw [Bool.eq_false_iff, Ne, isLower_iff_toNat]
    omega
  refine .of_laterRule rfl hname (laterRules.take 1) ⟨some .number, numeral⟩ (laterRules.drop 2)
    rfl rfl ?_ ?_
  · intro rest hrest
    obtain ⟨c, cs, heq, -⟩ := hword.head
    rw [heq, List.cons_append]
    simp only [laterRules, Rule.all, List.drop, List.take, List.forall_mem_cons]
    exact ⟨stringLiteral_eq_zero
      (ne_of_isNameChar (hword.chars c (heq ▸ List.mem_cons_self)) (by decide)) _, nofun⟩
  · intro rest hrest
    have hend : ∀ c ∈ rest.head?, c.isDigit = false := fun c hc => by
      have := isNameChar_of_isWordChar (hrest c hc)
      simp only [isNameChar, Char.isAlphanum, Bool.or_eq_false_iff] at this
      exact this.1.2
    have hdrop : (word.toList ++ rest).dropWhile Char.isDigit = rest := by
      rw [List.dropWhile_append_of_pos hdigits]
      cases rest with
      | nil => rfl
      | cons c rest => simp [hend c rfl]
    show numeral (word.toList ++ rest) = _
    rw [numeral, hdrop, if_pos (wordEnds_iff.2 hrest), run_append hdigits hend,
      String.length_toList]

/-- A numeral is written as a number. -/
theorem Writes.number (n : Nat) : Writes (toString n).toList [.placeless .number (toString n)] := by
  refine (Owns.number ?_ ?_).writes
  · rw [← String.length_toList, Nat.toString_eq_repr, Nat.toList_repr]
    exact List.length_pos_iff.2 (by simp)
  · rw [Nat.toString_eq_repr, Nat.toList_repr]
    exact fun c hc => Nat.isDigit_of_mem_toDigits (by decide) (by decide) hc

/-! ## Operators, marks and string literals -/

/-- What comments and arrows begin with, which are tried before operators. -/
def operatorMarks : List (List Char) := [['/', '/'], ['-', '>'], ['=', '>']]

/-- An operator takes all its characters, unless it begins a comment or an arrow. -/
theorem Kind.Owns.operator {text : String} (hne : 0 < text.length)
    (hchars : ∀ c ∈ text.toList, isOperatorChar c = true)
    (hmarks : ∀ mark ∈ operatorMarks, ¬ mark <+: text.toList) : Kind.operator.Owns text := by
  refine .of_rule (Rule.all.take 20) ⟨some .operator, run isOperatorChar⟩ (Rule.all.drop 21) rfl rfl
    hne ?_ ?_
  · intro rest hrest
    have hmark {mark : List Char} (hmem : mark ∈ operatorMarks) :
        ¬ mark <+: text.toList ++ rest := by
      have hclass : ∀ mark ∈ operatorMarks, mark.all isOperatorChar = true := by decide
      exact fun hprefix => hmarks mark hmem (prefix_of_prefix_append
        (List.all_eq_true.1 (hclass mark hmem)) hrest hprefix)
    obtain ⟨c, cs, heq⟩ := List.exists_cons_of_ne_nil
      (List.ne_nil_of_length_pos (String.length_toList ▸ hne))
    have hc : isOperatorChar c = true := hchars c (heq ▸ List.mem_cons_self)
    obtain ⟨hblank, hdigit⟩ := isBlank_of_isOperatorChar hc
    rw [heq, List.cons_append] at hmark ⊢
    generalize cs ++ rest = cs at hmark ⊢
    have hne {mark : Char} (hm : isOperatorChar mark = false) : c ≠ mark :=
      ne_of_isOperatorChar hc hm
    simp only [Rule.all, List.take, List.forall_mem_cons, Rule.punctuation, Rule.keyword]
    exact ⟨run_cons_of_not hblank cs, comment_eq_zero (hmark (by decide)),
      exactly_cons rfl (hne (by decide)) cs, exactly_cons rfl (hne (by decide)) cs,
      exactly_cons rfl (hne (by decide)) cs, exactly_eq_zero (hmark (by decide)),
      exactly_eq_zero (hmark (by decide)), exactly_cons rfl (hne (by decide)) cs,
      exactly_cons rfl (hne (by decide)) cs, exactly_cons rfl (hne (by decide)) cs,
      exactly_cons rfl (hne (by decide)) cs, word_cons rfl (hne (by decide)) cs,
      word_cons rfl (hne (by decide)) cs, word_cons rfl (hne (by decide)) cs,
      word_cons rfl (hne (by decide)) cs, word_cons rfl (hne (by decide)) cs,
      word_cons rfl (hne (by decide)) cs, word_cons rfl (hne (by decide)) cs,
      stringLiteral_eq_zero (hne (by decide)) cs, numeral_eq_zero hdigit cs, nofun⟩
  · intro rest hrest
    show run isOperatorChar (text.toList ++ rest) = _
    rw [run_append hchars hrest, String.length_toList]

/-- Characters of operators are scanned as one operator, unless they begin like a comment or an
arrow. -/
theorem Writes.operator {text : String} (hne : 0 < text.length)
    (hall : text.toList.all isOperatorChar = true)
    (hmarks : ∀ mark ∈ operatorMarks, ¬ mark <+: text.toList) :
    Writes text.toList [.placeless .operator text] :=
  (Owns.operator hne (List.all_eq_true.1 hall) hmarks).writes

/-- The texts that are tokens wherever they stand. -/
def fixedMarks : List (Kind × String) :=
  [(.semicolon, ";"), (.colon, ":"), (.comma, ","), (.arrow, "->"), (.lambdaArrow, "=>"),
    (.opening .paren, "("), (.closing .paren, ")"), (.opening .brace, "\x7b"),
    (.closing .brace, "\x7d")]

/-- A punctuation mark is a token of its kind. -/
theorem Kind.Owns.mark {kind : Kind} {text : String} (h : (kind, text) ∈ fixedMarks) :
    kind.Owns text := by
  simp only [fixedMarks, List.mem_cons, List.not_mem_nil, or_false, Prod.mk.injEq] at h
  rcases h with h | h | h | h | h | h | h | h | h
  all_goals
    obtain ⟨rfl, rfl⟩ := h
    exact ⟨by decide, fun rest _ => by rfl⟩

/-- Punctuation marks do not go on. -/
theorem goesOn_of_mark : ∀ mark ∈ fixedMarks, mark.1.goesOn = fun _ => false := by
  simp [fixedMarks, Kind.goesOn]

/-- A punctuation mark is scanned as a token of its kind whatever follows. -/
theorem Opens.mark (kind : Kind) (text : String) (h : (kind, text) ∈ fixedMarks) :
    Opens text.toList [.placeless kind text] :=
  (Owns.mark h).opens (congrFun (goesOn_of_mark _ h))

/-- Where there is white space at the front of a text, all of it is one lexeme. -/
theorem lexeme?_of_blanks {cs : List Char} (h : 0 < run isBlank cs) :
    lexeme? cs = some ⟨none, run isBlank cs, h⟩ := dif_pos h

/-- Blanks are passed over, with all blanks after them. -/
theorem Opens.blanks {gap : List Char} (h : ∀ c ∈ gap, isBlank c = true) : Opens gap [] := by
  intro rest more hrest
  -- What follows may begin with blanks, which make one lexeme with these.
  have hpassed : Scans (rest.drop (run isBlank rest)) more := by
    by_cases hn : 0 < run isBlank rest
    · have hl := lexeme?_of_blanks hn
      cases hrest with
      | nil => exact absurd hn (by decide)
      | skip hl' _ hmore =>
        cases hl.symm.trans hl'
        exact hmore
      | token hl' hk _ =>
        cases hl.symm.trans hl'
        cases hk
    · rw [Nat.eq_zero_of_not_pos hn, List.drop_zero]
      exact hrest
  cases gap with
  | nil => exact hrest
  | cons c gap =>
    have hrun : run isBlank (c :: gap ++ rest) = (c :: gap).length + run isBlank rest := by
      rw [run, List.takeWhile_append_of_pos h, List.length_append, run]
    have hl := lexeme?_of_blanks (run_pos (h c (.head _)) (gap ++ rest))
    refine .skip hl rfl ?_
    show Scans ((c :: gap ++ rest).drop (run isBlank (c :: gap ++ rest))) more
    rwa [hrun, ← List.drop_drop, List.drop_left]

/-- A blank is passed over whatever follows. -/
theorem Opens.blank : Opens [' '] [] := .blanks (List.forall_mem_singleton.2 rfl)

/-- The characters that a string literal can hold and that stand for themselves, or for which it has
an escape. -/
def isPrintable (c : Char) : Bool := ' ' ≤ c && c ≤ '~' && c != '\\'

/-- A printable character stands for itself in a string literal, or is a quote behind a
backslash. -/
theorem quotedChar_of_isPrintable {c : Char} (h : isPrintable c = true) :
    (c = '"' ∧ Text.quotedChar c = ['\\', '"']) ∨
      (isPlain c = true ∧ Text.quotedChar c = [c]) := by
  simp only [isPrintable, Bool.and_eq_true, decide_eq_true_eq, bne_iff_ne] at h
  obtain ⟨⟨hlow, hhigh⟩, hslash⟩ := h
  by_cases hquote : c = '"'
  · subst hquote
    exact .inl ⟨rfl, rfl⟩
  · refine .inr ⟨by simp [isPlain, hlow, hhigh, hquote, hslash], ?_⟩
    have hlow' : 0x20 ≤ c.toNat := UInt32.le_iff_toNat_le.1 hlow
    have hhigh' : c.toNat ≤ 0x7e := UInt32.le_iff_toNat_le.1 hhigh
    have hne {d : Char} (hd : d.toNat < 0x20) : c ≠ d := by
      rintro rfl
      omega
    have hvisible : Text.isVisible c = true := by
      rw [Text.isVisible, if_pos (by omega)]
      simp
      omega
    rw [Text.quotedChar, if_neg hquote, if_neg hslash, if_neg (hne (by decide)),
      if_neg (hne (by decide)), if_neg (hne (by decide)), if_neg (by omega), if_pos hvisible]

/-- A plain character in a string literal is one more character of it. -/
theorem stringBody_cons {c : Char} (h : isPlain c = true) (cs : List Char) :
    stringBody (c :: cs) = (stringBody cs).map (· + 1) := by
  have hne : c ≠ '"' ∧ c ≠ '\\' := by
    simp only [isPlain, Bool.and_eq_true, bne_iff_ne] at h
    exact ⟨h.1.2, h.2⟩
  rw [stringBody, if_pos h]
  · exact fun hq => hne.1 hq
  · exact fun _ hq _ => hne.2 hq

/-- The body of a string literal goes up to the closing quote, if what is quoted is printable. -/
theorem stringBody_append {value : List Char} (h : ∀ c ∈ value, isPrintable c = true)
    (rest : List Char) : stringBody (value.flatMap Text.quotedChar ++ '"' :: rest) =
      some ((value.flatMap Text.quotedChar).length + 1) := by
  induction value with
  | nil => rfl
  | cons c value ih =>
    obtain ⟨hc, hvalue⟩ := List.forall_mem_cons.1 h
    rw [List.flatMap_cons, List.append_assoc, List.length_append]
    rcases quotedChar_of_isPrintable hc with ⟨rfl, hq⟩ | ⟨hplain, hq⟩
    · rw [hq, List.cons_append, List.cons_append, List.nil_append, stringBody, ih hvalue]
      simp
      omega
    · rw [hq, List.cons_append, List.nil_append, stringBody_cons hplain, ih hvalue]
      simp
      omega

/-- A string literal breaks off at a character that it can neither hold nor end with. -/
theorem stringBody_eq_none {c : Char} {cs : List Char} (hquote : c ≠ '"')
    (hescape : ∀ more, c = '\\' → cs = '"' :: more → False) (hplain : ¬ isPlain c = true) :
    stringBody (c :: cs) = none := by
  rw [stringBody, if_neg hplain]
  · exact hquote
  · exact hescape

/-- The body of a string literal is no longer than the text. -/
theorem stringBody_le (cs : List Char) : ∀ n ∈ stringBody cs, n ≤ cs.length := by
  induction cs using stringBody.induct with
  | case1 =>
    intro n h
    cases h
    exact Nat.le_add_left 1 _
  | case2 cs ih =>
    intro n h
    rw [stringBody] at h
    obtain ⟨m, hm, rfl⟩ := Option.map_eq_some_iff.1 h
    exact Nat.add_le_add_right (ih m hm) 2
  | case3 c cs _ _ hplain ih =>
    intro n h
    rw [stringBody_cons hplain] at h
    obtain ⟨m, hm, rfl⟩ := Option.map_eq_some_iff.1 h
    exact Nat.succ_le_succ (ih m hm)
  | case4 c cs hquote hescape hplain =>
    intro n h
    rw [stringBody_eq_none hquote hescape hplain] at h
    cases h
  | case5 =>
    intro n h
    cases h

/-- What ends a string literal ends it whatever follows. -/
theorem stringBody_take_append (cs ds : List Char) : ∀ n ∈ stringBody cs,
    stringBody (cs.take n ++ ds) = some n := by
  induction cs using stringBody.induct with
  | case1 =>
    intro n h
    cases h
    rfl
  | case2 cs ih =>
    intro n h
    rw [stringBody] at h
    obtain ⟨m, hm, rfl⟩ := Option.map_eq_some_iff.1 h
    rw [List.take_succ_cons, List.take_succ_cons, List.cons_append, List.cons_append, stringBody,
      ih m hm]
    rfl
  | case3 c cs _ _ hplain ih =>
    intro n h
    rw [stringBody_cons hplain] at h
    obtain ⟨m, hm, rfl⟩ := Option.map_eq_some_iff.1 h
    rw [List.take_succ_cons, List.cons_append, stringBody_cons hplain, ih m hm]
    rfl
  | case4 c cs hquote hescape hplain =>
    intro n h
    rw [stringBody_eq_none hquote hescape hplain] at h
    cases h
  | case5 =>
    intro n h
    cases h

/-- What is taken as a string literal is one wherever it stands. -/
theorem Kind.Owns.string {cs : List Char} {n : Nat} (h : stringBody cs = some n) :
    Kind.string.Owns (String.ofList ('"' :: cs.take n)) := by
  have hall : Rule.all =
      Rule.all.take 18 ++ ⟨some .string, stringLiteral⟩ :: Rule.all.drop 19 := rfl
  have hlength : (cs.take n).length = n := List.length_take_of_le (stringBody_le cs n h)
  refine .of_rule _ _ _ hall rfl (String.length_ofList ▸ Nat.succ_pos _) (fun rest _ => ?_)
    fun rest _ => ?_
  · rw [String.toList_ofList, List.cons_append]
    generalize cs.take n ++ rest = cs
    simp only [Rule.all, List.take, List.forall_mem_cons, Rule.punctuation, Rule.keyword]
    exact ⟨rfl, rfl, rfl, rfl, rfl, rfl, rfl, rfl, rfl, rfl, rfl, word_cons rfl (by decide) cs,
      word_cons rfl (by decide) cs, word_cons rfl (by decide) cs, word_cons rfl (by decide) cs,
      word_cons rfl (by decide) cs, word_cons rfl (by decide) cs, word_cons rfl (by decide) cs,
      nofun⟩
  · rw [String.toList_ofList, List.cons_append, String.length_ofList, List.length_cons, hlength]
    show ((stringBody _).map (· + 1)).getD 0 = _
    rw [stringBody_take_append cs rest n h]
    rfl

/-- A quoted text is a string literal wherever it stands. -/
theorem Kind.Owns.of_quoted {value : String} (h : ∀ c ∈ value.toList, isPrintable c = true) :
    Kind.string.Owns (Text.quoted value) := by
  let body : List Char := value.toList.flatMap Text.quotedChar ++ ['"']
  have hbody : stringBody body = some body.length := by
    rw [stringBody_append h, List.length_append, List.length_singleton]
  have hquoted : Text.quoted value = String.ofList ('"' :: body.take body.length) := by
    rw [List.take_length, ← String.toList_inj, String.toList_ofList]
    simp [body, Text.quoted, String.toList_append]
  rw [hquoted]
  exact .string hbody

/-- A quoted text is scanned as a string literal, whatever follows. -/
theorem Opens.string {value : String} (h : ∀ c ∈ value.toList, isPrintable c = true) :
    Opens (Text.quoted value).toList [.placeless .string (Text.quoted value)] :=
  (Owns.of_quoted h).opens fun _ => rfl

end LetWhile
