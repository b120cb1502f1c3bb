import LetWhile.Proofs.Scanning.Words

/-!
# What follows a token

No lexeme begins with a word character beyond ASCII, so a text that can be scanned does not begin
with one (`Settled`). A word in it therefore ends where its characters end, and each token is the one
that its text makes wherever it ends (`Lexeme.owned`). In particular a name is not a reserved word,
and an operator begins neither a comment nor an arrow, because their rules are tried before.
-/

namespace LetWhile

open Text (isBlank isWordChar)
open Lexeme

/-! ## Characters -/

namespace Text

/-- No code point lies in two lists of ranges of which any two are apart. -/
theorem inRanges_disjoint {n : Nat} {ranges others : List (Nat × Nat)}
    (h : (ranges.all fun range => others.all fun other =>
      range.2 < other.1 || other.2 < range.1) = true)
    (hn : inRanges n ranges = true) : inRanges n others = false := by
  obtain ⟨range, hrange, hin⟩ := List.any_eq_true.1 hn
  refine List.any_eq_false.2 fun other hother => ?_
  have hapart := List.all_eq_true.1 (List.all_eq_true.1 h range hrange) other hother
  simp only [Bool.or_eq_true, Bool.and_eq_true, decide_eq_true_eq] at hapart hin ⊢
  omega

/-- White space is no character of words. -/
theorem isWordChar_of_isBlank {c : Char} (h : isBlank c = true) : isWordChar c = false := by
  have hword : inRanges c.toNat wordCodePoints = false :=
    inRanges_disjoint (by decide +kernel) h
  have hname : isNameChar c = false := Bool.eq_false_iff.2 fun hc =>
    absurd (h.symm.trans (isBlank_of_isNameChar hc)) Bool.noConfusion
  rw [isWordChar, hword, Bool.and_false, Bool.or_false]
  exact hname

end Text

namespace Lexeme

/-- No character of operators is one of words. -/
theorem isWordChar_of_isOperatorChar {c : Char} (h : isOperatorChar c = true) :
    isWordChar c = false := by
  have hall : "!@$%^&*<>?/|.=+-".toList.all (!isWordChar ·) = true := by decide
  simp only [isOperatorChar, decide_eq_true_eq] at h
  simpa using List.all_eq_true.1 hall c h

/-- A character of words is none that is not one. -/
theorem ne_of_isWordChar {c d : Char} (h : isWordChar c = true) (hd : isWordChar d = false) :
    c ≠ d := by
  rintro rfl
  exact absurd (h.symm.trans hd) Bool.noConfusion

end Lexeme

/-! ## Texts that begin no lexeme -/

/-- Where no rule takes anything there is no lexeme. -/
theorem Rule.first?_eq_none {cs : List Char} {rules : List Rule}
    (h : ∀ rule ∈ rules, rule.take cs = 0) : first? cs rules = none := by
  induction rules with
  | nil => rfl
  | cons rule rules ih =>
    obtain ⟨hrule, hrules⟩ := List.forall_mem_cons.1 h
    rw [first?, dif_neg (by omega), ih hrules]

/-- No lexeme begins with a word character that no name holds. -/
theorem lexeme?_eq_none {c : Char} (hword : isWordChar c = true) (hname : isNameChar c = false)
    (cs : List Char) : lexeme? (c :: cs) = none := by
  have hne {d : Char} (hd : isWordChar d = false) : c ≠ d := ne_of_isWordChar hword hd
  have hletter {d : Char} (hd : isNameChar d = true) : c ≠ d := (ne_of_isNameChar hd hname).symm
  have hblank : isBlank c = false := Bool.eq_false_iff.2 fun hc =>
    absurd (hword.symm.trans (Text.isWordChar_of_isBlank hc)) Bool.noConfusion
  have hcomment : ¬ ['/', '/'] <+: c :: cs := fun hprefix =>
    hne (by decide) (List.cons_prefix_cons.1 hprefix).1.symm
  have hoperator : isOperatorChar c = false := Bool.eq_false_iff.2 fun hc =>
    absurd (hword.symm.trans (isWordChar_of_isOperatorChar hc)) Bool.noConfusion
  simp only [isNameChar, Char.isAlphanum, Bool.or_eq_false_iff] at hname
  obtain ⟨⟨halpha, hdigit⟩, hscore⟩ := hname
  obtain ⟨hupper, hlower⟩ : c.isUpper = false ∧ c.isLower = false := Bool.or_eq_false_iff.1 halpha
  have hbegins : (c.isLower || c == '_') = false := by rw [hlower, hscore, Bool.false_or]
  refine Rule.first?_eq_none ?_
  simp only [Rule.all, List.forall_mem_cons, Rule.punctuation, Rule.keyword]
  exact ⟨run_cons_of_not hblank cs, comment_eq_zero hcomment,
    exactly_cons rfl (hne (by decide)) cs, exactly_cons rfl (hne (by decide)) cs,
    exactly_cons rfl (hne (by decide)) cs, exactly_cons rfl (hne (by decide)) cs,
    exactly_cons rfl (hne (by decide)) cs, exactly_cons rfl (hne (by decide)) cs,
    exactly_cons rfl (hne (by decide)) cs, exactly_cons rfl (hne (by decide)) cs,
    exactly_cons rfl (hne (by decide)) cs, word_cons rfl (hletter (by decide)) cs,
    word_cons rfl (hletter (by decide)) cs, word_cons rfl (hletter (by decide)) cs,
    word_cons rfl (hletter (by decide)) cs, word_cons rfl (hletter (by decide)) cs,
    word_cons rfl (hletter (by decide)) cs, word_cons rfl (hletter (by decide)) cs,
    stringLiteral_eq_zero (hne (by decide)) cs, numeral_eq_zero hdigit cs,
    run_cons_of_not hoperator cs, nameFrom_eq_zero hupper cs, nameFrom_eq_zero hbegins cs,
    List.forall_mem_nil _⟩

/-- A text does not begin with a word character that no name holds. -/
def Settled (cs : List Char) : Prop :=
  ∀ c ∈ cs.head?, isWordChar c = true → isNameChar c = true

/-- A text that begins with a lexeme is settled. -/
theorem Settled.of_lexeme {cs : List Char} {lexeme : Lexeme} (h : lexeme? cs = some lexeme) :
    Settled cs := by
  cases cs with
  | nil => cases h
  | cons c cs =>
    rintro _ ⟨⟩ hword
    cases hname : isNameChar c with
    | true => rfl
    | false => cases (lexeme?_eq_none hword hname cs).symm.trans h

/-- Trivia in front of a settled text leave it settled. -/
theorem Text.Trivia.settled {after gap : List Char} (h : Trivia after gap) (hafter : Settled after) :
    Settled (gap ++ after) := by
  cases h with
  | nil => exact hafter
  | blank hblank =>
    rintro _ ⟨⟩ hword
    exact absurd (hword.symm.trans (isWordChar_of_isBlank hblank)) Bool.noConfusion
  | comment =>
    rintro _ ⟨⟩ hword
    exact absurd hword (by decide)

/-- A text that is laid out in tokens is settled. -/
theorem Token.Layout.settled {offset : Nat} {cs : List Char} {tokens : List (Token Nat)}
    (h : Layout offset cs tokens) : Settled cs := by
  cases h with
  | done hgap =>
    have := hgap.settled (show Settled [] by rintro _ ⟨⟩)
    rwa [List.append_nil] at this
  | token hgap hl => exact hgap.settled (.of_lexeme hl)

/-! ## The tokens of scanned texts -/

/-- If a rule of another kind decides, the rules before it took nothing. -/
theorem Rule.take_eq_zero_of_first? {cs : List Char} {rules others : List Rule} {lexeme : Lexeme}
    (h : first? cs (rules ++ others) = some lexeme)
    (hkind : ∀ rule ∈ rules, rule.kind? ≠ lexeme.kind?) : ∀ rule ∈ rules, rule.take cs = 0 := by
  induction rules with
  | nil => exact List.forall_mem_nil _
  | cons rule rules ih =>
    obtain ⟨hrule, hrules⟩ := List.forall_mem_cons.1 hkind
    rw [List.cons_append, first?] at h
    split at h
    · cases h
      exact absurd rfl hrule
    · exact List.forall_mem_cons.2 ⟨by omega, ih h hrules⟩

namespace Lexeme

/-- Behind a run stands nothing of its class. -/
theorem endsBefore_of_run {p : Char → Bool} (cs : List Char) :
    ∀ c ∈ (cs.drop (run p cs)).head?, p c = false := by
  intro c hc
  rw [drop_run] at hc
  have := List.head?_dropWhile_not p cs
  rw [Option.mem_def.1 hc] at this
  simpa using this

/-- A reserved word ends where it is taken to. -/
theorem wordEnds_of_word {text : String} {cs : List Char} (h : 0 < Lexeme.word text cs) :
    wordEnds (cs.drop (Lexeme.word text cs)) = true := by
  unfold Lexeme.word at h ⊢
  split at h
  · rename_i hends
    rw [if_pos hends]
    unfold exactly at h ⊢
    split at h
    · rename_i hprefix
      rwa [if_pos hprefix]
    · exact absurd h (Nat.lt_irrefl 0)
  · exact absurd h (Nat.lt_irrefl 0)

/-- A number ends where it is taken to. -/
theorem wordEnds_of_numeral {cs : List Char} (h : 0 < numeral cs) :
    wordEnds (cs.drop (numeral cs)) = true := by
  unfold numeral at h ⊢
  split at h
  · rename_i hends
    rwa [if_pos hends, drop_run]
  · exact absurd h (Nat.lt_irrefl 0)

/-- A name takes all the name characters that there are. -/
theorem wordEnds_of_nameFrom {begins : Char → Bool} {cs : List Char} (h : 0 < nameFrom begins cs)
    (hsettled : Settled (cs.drop (nameFrom begins cs))) :
    wordEnds (cs.drop (nameFrom begins cs)) = true := by
  refine wordEnds_iff.2 fun c hc => Bool.eq_false_iff.2 fun hword => ?_
  have hname : isNameChar c = false := by
    cases cs with
    | nil => cases hc
    | cons d cs =>
      simp only [nameFrom] at h hc
      split at h
      · rename_i hd
        rw [if_pos hd, Nat.add_comm, List.drop_succ_cons] at hc
        exact endsBefore_of_run cs c hc
      · exact absurd h (Nat.lt_irrefl 0)
  exact absurd ((hsettled c hc hword).symm.trans hname) Bool.noConfusion

variable {cs : List Char} {lexeme : Lexeme} {kind : Kind}

/-- What follows the lexeme of a token lets the token end. -/
theorem endsBefore (h : lexeme? cs = some lexeme) (hk : lexeme.kind? = some kind)
    (hsettled : Settled (cs.drop lexeme.length)) : kind.EndsBefore (cs.drop lexeme.length) := by
  obtain ⟨rule, hrule, hkind, hlength⟩ := Rule.of_first? h
  have hpos := lexeme.length_pos
  have htake := Rule.take_of_kind rule hrule
  rw [← hkind, hk] at htake
  rw [hlength] at hpos hsettled ⊢
  cases kind with
  | keyword word =>
    simp only at htake
    rw [htake] at hpos ⊢
    exact wordEnds_iff.1 (wordEnds_of_word hpos)
  | boolean =>
    rcases htake with htake | htake <;> rw [htake] at hpos ⊢ <;>
      exact wordEnds_iff.1 (wordEnds_of_word hpos)
  | number =>
    simp only at htake
    rw [htake] at hpos ⊢
    exact wordEnds_iff.1 (wordEnds_of_numeral hpos)
  | operator =>
    simp only at htake
    rw [htake]
    exact endsBefore_of_run cs
  | typeName | identifier =>
    simp only at htake
    rw [htake] at hpos hsettled ⊢
    exact wordEnds_iff.1 (wordEnds_of_nameFrom hpos hsettled)
  | _ => exact fun c _ => rfl

/-- An operator does not begin like a comment or an arrow: those rules come first. -/
theorem not_begins_of_operator (h : lexeme? cs = some lexeme) (hk : lexeme.kind? = some .operator) :
    ∀ mark ∈ operatorMarks, ¬ mark <+: cs.take lexeme.length := by
  have hkinds : ∀ rule ∈ Rule.all.take 20, rule.kind? ≠ lexeme.kind? := by
    rw [hk]
    simp [Rule.all, Rule.punctuation, Rule.keyword]
  have hzero := Rule.take_eq_zero_of_first?
    (show Rule.first? cs (Rule.all.take 20 ++ Rule.all.drop 20) = some lexeme from h) hkinds
  simp only [Rule.all, List.take, List.forall_mem_cons, Rule.punctuation] at hzero
  obtain ⟨-, hcomment, -, -, -, harrow, hlambda, -⟩ := hzero
  intro mark hmark hprefix
  have hcs : mark <+: cs := hprefix.trans (List.take_prefix _ _)
  simp only [operatorMarks, List.mem_cons, List.not_mem_nil, or_false] at hmark
  rcases hmark with rfl | rfl | rfl
  · obtain ⟨rest, rfl⟩ := hcs
    exact absurd hcomment (Nat.ne_of_gt (Nat.lt_of_lt_of_le (by decide) (Nat.le_add_right 2 _)))
  · exact absurd harrow (by simp [exactly, hcs])
  · exact absurd hlambda (by simp [exactly, hcs])

/-- An identifier that ends where a word ends is no reserved word: those rules come first. -/
theorem ne_reserved_of_identifier (h : lexeme? cs = some lexeme)
    (hk : lexeme.kind? = some .identifier)
    (hends : wordEnds (cs.drop lexeme.length) = true) :
    ∀ other ∈ reservedWords, other.2 ≠ String.ofList (cs.take lexeme.length) := by
  have hkinds : ∀ rule ∈ markRules ++ reservedWords.map wordRule, rule.kind? ≠ lexeme.kind? := by
    rw [hk]
    simp [markRules, reservedWords, wordRule, Rule.all, Rule.punctuation]
  have hfirst : Rule.first? cs (markRules ++ reservedWords.map wordRule ++ laterRules) =
      some lexeme := by
    rw [List.append_assoc, ← all_eq]
    exact h
  have hzero := Rule.take_eq_zero_of_first? hfirst hkinds
  intro other hother heq
  have hword : Lexeme.word other.2 cs = 0 :=
    hzero (wordRule other) (List.mem_append_right _ (List.mem_map_of_mem hother))
  have hlist : other.2.toList = cs.take lexeme.length := by rw [heq, String.toList_ofList]
  have hdrop : cs.drop other.2.length = cs.drop lexeme.length := by
    rw [← String.length_toList, hlist, List.length_take]
    rcases Nat.le_total lexeme.length cs.length with hle | hle
    · rw [Nat.min_eq_left hle]
    · rw [Nat.min_eq_right hle, List.drop_of_length_le hle, List.drop_length]
  have hne : 0 < other.2.length := (isWord_of_reserved hother).length_pos
  have hprefix : other.2.toList <+: cs := hlist ▸ List.take_prefix _ _
  rw [Lexeme.word, hdrop, if_pos hends, exactly, if_pos (List.isPrefixOf_iff_prefix.2 hprefix)]
    at hword
  omega

/-- A string literal is a token wherever it stands. -/
theorem owned_string {cs : List Char} (h : 0 < stringLiteral cs) :
    Kind.string.Owns (String.ofList (cs.take (stringLiteral cs))) := by
  unfold stringLiteral at h ⊢
  split at h
  · rename_i body
    cases hbody : stringBody body with
    | none =>
      rw [hbody] at h
      exact absurd h (Nat.lt_irrefl 0)
    | some n => exact Kind.Owns.string hbody
  · exact absurd h (Nat.lt_irrefl 0)

/-- The token of a lexeme in a scanned text is the one that its text makes wherever it ends. -/
theorem owned (h : lexeme? cs = some lexeme) (hk : lexeme.kind? = some kind)
    (hsettled : Settled (cs.drop lexeme.length)) :
    kind.Owns (String.ofList (cs.take lexeme.length)) := by
  have hends := endsBefore h hk hsettled
  have hadmits := Lexeme.admitted h hk
  have hpos : 0 < (String.ofList (cs.take lexeme.length)).length := by
    have := lexeme.length_pos
    rw [String.length_ofList, List.length_take]
    cases cs with
    | nil => cases h
    | cons c cs => rw [List.length_cons]; omega
  cases kind with
  | keyword word =>
    rw [hadmits word.text rfl]
    exact .reserved (by cases word <;> decide)
  | boolean =>
    rcases hadmits with htext | htext <;> rw [htext] <;> exact .reserved (by decide)
  | string =>
    obtain ⟨rule, hrule, hkind, hlength⟩ := Rule.of_first? h
    have htake := Rule.take_of_kind rule hrule
    have hlexeme := lexeme.length_pos
    rw [← hkind, hk] at htake
    simp only at htake
    rw [hlength, htake] at hlexeme ⊢
    exact owned_string hlexeme
  | number => exact .number hpos hadmits
  | operator =>
    refine .operator hpos hadmits ?_
    rw [String.toList_ofList]
    exact not_begins_of_operator h hk
  | typeName => exact .typeName hadmits
  | identifier =>
    exact .identifier ⟨hadmits, ne_reserved_of_identifier h hk (wordEnds_iff.2 hends)⟩
  | closing bracket | opening bracket =>
    rw [hadmits _ rfl]
    exact .mark (by cases bracket <;> decide)
  | _ =>
    rw [hadmits _ rfl]
    exact .mark (by decide)

end Lexeme

/-- Each token of a text that is laid out has a text of its kind. -/
theorem Token.Layout.owned {offset : Nat} {cs : List Char} {tokens : List (Token Nat)}
    (h : Layout offset cs tokens) : ∀ token ∈ tokens, token.kind.Owns token.text := by
  induction h with
  | done => exact List.forall_mem_nil _
  | token _ hl hk _ _ hrest ih =>
    exact List.forall_mem_cons.2 ⟨Lexeme.owned hl hk hrest.settled, ih⟩

/-- The tokens of a source are those that their texts make wherever they end. -/
theorem Source.tokens_owned {source : Source} {tokens : List (Token Position)}
    (h : source.tokens = .ok tokens) : ∀ token ∈ tokens, token.kind.Owns token.text := by
  obtain ⟨found, hscan, rfl⟩ := Source.tokens_eq_ok h
  refine List.forall_mem_map.2 fun token htoken => ?_
  exact (Token.layout_of_scanFrom 0 source.text.toList found hscan).owned token htoken

end LetWhile
