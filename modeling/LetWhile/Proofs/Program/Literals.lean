import LetWhile.Proofs.Printing.Spelled
import LetWhile.Proofs.Program.Stage
import LetWhile.Proofs.Scanning.Characters
import LetWhile.Proofs.Scanning.Settled

/-!
# Literals keep their values

A string literal is the quoted form of a text (`Kind.Owns.quoted`), which is its value: reading
takes the quotes and the escapes off again. A number is the digits of its value, with zeros in front
(`Text.Decimal`), so no number in a source stands for nothing. `Source.literals_keep` has both ways
of both.
-/

namespace LetWhile

open Text (quoted)

/-! ## Decimal spellings -/

namespace Text

/-- A decimal spelling of a number: its digits, after any number of zeros. -/
def Decimal (text : String) (n : Nat) : Prop :=
  ∃ zeros, text.toList = List.replicate zeros '0' ++ Nat.toDigits 10 n

/-- The digits of a number are a spelling of it. -/
theorem Decimal.toString (n : Nat) : Decimal (toString n) n :=
  ⟨0, by rw [Nat.toString_eq_repr, Nat.toList_repr]; rfl⟩

/-- A spelling of a number is not empty. -/
theorem Decimal.length_pos {text : String} {n : Nat} (h : Decimal text n) : 0 < text.length := by
  obtain ⟨zeros, htext⟩ := h
  have := Nat.length_toDigits_pos (b := 10) (n := n)
  rw [← String.length_toList, htext, List.length_append]
  omega

/-- A spelling of a number consists of digits. -/
theorem Decimal.isDigit {text : String} {n : Nat} (h : Decimal text n) :
    ∀ c ∈ text.toList, c.isDigit = true := by
  obtain ⟨zeros, htext⟩ := h
  rw [htext]
  refine List.forall_mem_append.2 ⟨fun c hc => ?_, fun c hc => ?_⟩
  · rw [List.eq_of_mem_replicate hc]
    rfl
  · exact Nat.isDigit_of_mem_toDigits (by decide) (by decide) hc

/-- A spelling of a number stands for it. -/
theorem Decimal.integerOf {text : String} {n : Nat} (h : Decimal text n) :
    integerOf text = some (n : Int) := by
  rw [integerOf_of_digits h.length_pos h.isDigit]
  obtain ⟨zeros, htext⟩ := h
  rw [htext, Nat.ofDigitChars_append, Nat.ofDigitChars_replicate_zero, Nat.mul_zero,
    Nat.ofDigitChars_ten_toDigits]

/-- A digit is that of a number below ten. -/
theorem exists_digitChar_of_isDigit {c : Char} (h : c.isDigit = true) :
    ∃ d < 10, c = Nat.digitChar d := by
  rw [Lexeme.isDigit_iff_toNat] at h
  have hlt : c.toNat - 48 < 10 := by omega
  refine ⟨c.toNat - 48, hlt, Char.toNat_inj.1 ?_⟩
  rw [Nat.toNat_digitChar_of_lt_ten hlt]
  omega

/-- Digits spell the number that they come to. Each digit at the end makes the number ten times as
large, so the induction is from there: all digits are zeros as long as the number is. -/
theorem digits_eq_append (cs : List Char) (hne : cs ≠ []) (h : ∀ c ∈ cs, c.isDigit = true) :
    ∃ zeros, cs = List.replicate zeros '0' ++ Nat.toDigits 10 (Nat.ofDigitChars 10 cs 0) := by
  induction cs using List.reverseRecOn with
  | nil => exact absurd rfl hne
  | append_singleton cs c ih =>
    obtain ⟨hcs, hc⟩ := List.forall_mem_append.1 h
    obtain ⟨d, hd, rfl⟩ := exists_digitChar_of_isDigit (hc c (.head _))
    rw [Nat.ofDigitChars_append, Nat.ofDigitChars_cons_digitChar_of_lt_ten hd, Nat.ofDigitChars_nil]
    by_cases hnil : cs = []
    · subst hnil
      refine ⟨0, ?_⟩
      rw [Nat.ofDigitChars_nil, Nat.mul_zero, Nat.zero_add, Nat.toDigits_of_lt_base hd]
      rfl
    obtain ⟨zeros, heq⟩ := ih hnil hcs
    generalize Nat.ofDigitChars 10 cs 0 = n at heq ⊢
    rcases Nat.eq_zero_or_pos n with rfl | hn
    · refine ⟨zeros + 1, ?_⟩
      rw [heq, Nat.toDigits_zero, List.replicate_succ', Nat.mul_zero, Nat.zero_add,
        Nat.toDigits_of_lt_base hd]
    · refine ⟨zeros, ?_⟩
      rw [← Nat.toDigits_append_toDigits (by decide) hn hd, Nat.toDigits_of_lt_base hd,
        ← List.append_assoc, ← heq]

/-- Digits are a spelling of the number that they come to. -/
theorem decimal_of_digits {text : String} (hne : 0 < text.length)
    (h : ∀ c ∈ text.toList, c.isDigit = true) :
    Decimal text (Nat.ofDigitChars 10 text.toList 0) :=
  digits_eq_append text.toList (List.ne_nil_of_length_pos (String.length_toList ▸ hne)) h

end Text

/-- The text of a token is one that its kind admits. -/
theorem Kind.Owns.admits {kind : Kind} {text : String} (h : kind.Owns text) :
    kind.Admits text := by
  have hadmits := Lexeme.admitted (h.lexeme [] nofun) rfl
  simpa only [List.append_nil, ← String.length_toList, List.take_length, String.ofList_toList]
    using hadmits

/-- Texts of tokens are well spelled. -/
theorem Kind.owns_wellSpelled : WellSpelled Kind.Owns :=
  fun kind text h => Kind.admits_wellSpelled kind text h.admits

/-- A number, wherever it stands, is a spelling of some number. -/
theorem Kind.Owns.decimal {text : String} (h : Kind.number.Owns text) :
    ∃ n, Text.Decimal text n :=
  ⟨_, Text.decimal_of_digits h.length_pos h.admits⟩

/-- A spelling of a number is the text of a number token. -/
theorem Kind.Owns.of_decimal {text : String} {n : Nat} (h : Text.Decimal text n) :
    Kind.number.Owns text := .number h.length_pos h.isDigit

/-! ## Sources -/

namespace Source
variable {source : Source} {kind : Kind}

/-- A text that is a token makes up a source of one token. -/
theorem tokens_of_owns (h : kind.Owns source.text) : source.tokens =
    .ok [⟨kind, source.text, ⟨source.place 0, source.place source.text.utf8ByteSize⟩⟩] := by
  have hlexeme := h.lexeme [] nofun
  rw [List.append_nil] at hlexeme
  have hscan : Token.scan source.text.toList =
      .ok [⟨kind, source.text, ⟨0, source.text.utf8ByteSize⟩⟩] := by
    rw [Token.scan, Token.scanFrom_token hlexeme rfl]
    simp only [← String.length_toList, List.take_length, List.drop_length, String.ofList_toList,
      Token.scanFrom, Nat.zero_add, ← Text.utf8ByteSize_eq]
    rfl
  rw [tokens, hscan]
  rfl

/-- A source of one token is read as the token is. -/
theorem expr_of_token {token : Token Position} (h : source.tokens = .ok [token])
    (hleaf : token.kind.bracket? = none) (limit : Nat) (origin : Position) :
    source.expr (limit + 1) origin = Reader.readToken token := by
  have hnest : nest (limit + 1) origin [token] =
      .ok ⟨[.leaf token], Nesting.spanOf origin [token]⟩ := by
    rw [nest, Nesting.nestFrom_leaf [] hleaf]
    rfl
  rw [expr, region, h]
  show nest (limit + 1) origin [token] >>= _ = _
  rw [hnest]
  rfl

/-- In a source every string literal is the quoted form of a text, which is its value. -/
theorem string_value {tokens : List (Token Position)} (h : source.tokens = .ok tokens)
    {token : Token Position} (htoken : token ∈ tokens) (hk : token.kind = .string) :
    ∃ value, Reader.readToken token = .ok (.string value token.span) ∧
      quoted value = token.text := by
  have howned := source.tokens_owned h token htoken
  rw [hk] at howned
  obtain ⟨value, hprintable, hquoted⟩ := howned.quoted
  refine ⟨value, ?_, hquoted⟩
  rw [Reader.readToken, hk, ← hquoted, Text.unquoted_quoted hprintable]

/-- In a source every number is a spelling of its value. -/
theorem number_value {tokens : List (Token Position)} (h : source.tokens = .ok tokens)
    {token : Token Position} (htoken : token ∈ tokens) (hk : token.kind = .number) :
    ∃ n : Nat, Reader.readToken token = .ok (.number n token.span) ∧
      Text.Decimal token.text n := by
  have howned := source.tokens_owned h token htoken
  rw [hk] at howned
  obtain ⟨n, hn⟩ := howned.decimal
  refine ⟨n, ?_, hn⟩
  rw [Reader.readToken, hk, hn.integerOf]

/-- A spelling of a number is read as the number. -/
theorem expr_of_decimal {text : String} {n : Nat} (h : Text.Decimal text n) (file : String)
    (limit : Nat) (origin : Position) : ∃ span,
      (Source.mk text file).tokens = .ok [⟨.number, text, span⟩] ∧
        (Source.mk text file).expr (limit + 1) origin = .ok (.number n span) := by
  let source : Source := ⟨text, file⟩
  have hown : Kind.number.Owns source.text := .of_decimal h
  have htokens := tokens_of_owns hown
  refine ⟨_, htokens, ?_⟩
  rw [expr_of_token htokens rfl, Reader.readToken, h.integerOf]

/-- Where numbers are those of a source, none of them stands for nothing. -/
theorem ne_invalidNumber_of_reading {cause : Cause} (h : cause.OfReading Kind.Owns)
    (text : String) : cause ≠ .invalidNumber text := by
  intro hcause
  obtain ⟨howns, hnone⟩ := h.2 text hcause
  obtain ⟨n, hn⟩ := howns.decimal
  cases hn.integerOf.symm.trans hnone

/-- Nothing is wrong with a number before reading. -/
theorem ne_invalidNumber_of_region {limit : Nat} {origin : Position} {fault : Fault Position}
    (h : source.region limit origin = .error fault) (text : String) :
    fault.cause ≠ .invalidNumber text := by
  intro hcause
  rcases Outcome.bind_eq_error.1 h with htokens | ⟨tokens, -, hnest⟩
  · have hstage := source.tokens_faultsIn fault htokens
    rw [hcause] at hstage
    cases hstage
  · have hstage := nest_faultsIn limit origin tokens fault hnest
    rw [hcause] at hstage
    simp [Cause.stage] at hstage

/-- Nothing is wrong with a number in the expression that a source spells. -/
theorem ne_invalidNumber_of_expr {limit : Nat} {origin : Position} {fault : Fault Position}
    (h : source.expr limit origin = .error fault) (text : String) :
    fault.cause ≠ .invalidNumber text := by
  rcases Outcome.bind_eq_error.1 h with hregion | ⟨region, hregion, hread⟩
  · exact ne_invalidNumber_of_region hregion text
  · obtain ⟨tokens, htokens, hnest⟩ := Outcome.bind_eq_ok.1 hregion
    have htrees := Tree.holds_of_nest (p := Token.Drawn Kind.Owns) hnest
      (source.tokens_owned htokens)
    exact ne_invalidNumber_of_reading
      ((Reader.ofBudget_finds Kind.owns_wellSpelled limit limit).expr _ _ htrees fault hread) text

/-- Nothing is wrong with a number in a source, nor where its program is checked. -/
theorem ne_invalidNumber_of_check {limit : Nat} {fault : Fault Position}
    (h : source.checkWithin limit = .error fault) (text : String) :
    fault.cause ≠ .invalidNumber text := by
  rcases checkWithin_eq_error_iff.1 h with hprogram | ⟨program, -, hrun⟩
  · have hregion (h : source.region limit (source.place 0) = .error fault) :=
      ne_invalidNumber_of_region h text
    rcases program_eq_error_iff.1 hprogram with htokens | hnest | ⟨region, hregion, -⟩
    · exact hregion (Outcome.bind_eq_error.2 (.inl htokens))
    · exact hregion (Outcome.bind_eq_error.2 (.inr hnest))
    · obtain ⟨tokens, htokens, hnest⟩ := Outcome.bind_eq_ok.1 hregion
      exact ne_invalidNumber_of_reading (program_finds htokens Kind.owns_wellSpelled
        (source.tokens_owned htokens) hnest fault hprogram) text
  · intro hcause
    have htyping := Session.builtin.run_faultsIn program fault hrun
    rw [hcause] at htyping
    cases htyping

end Source

/-- Literals keep their values, both ways. The quoted form of a printable text without backslashes
is scanned as one string literal and read as that text, and the value of every string literal in a
source is shown as it stands there. Every decimal spelling of a number, with zeros in front or
without, is scanned as one number and read as the number, which is shown as another spelling of it;
every number in a source is such a spelling, so no source is refused for a number that stands for
nothing. -/
theorem Source.literals_keep (limit budget : Nat) (file : String) (origin : Position) :
    (∀ value : String, (∀ c ∈ value.toList, isPrintable c = true) →
      let source : Source := ⟨quoted value, file⟩
      ∃ span, source.tokens = .ok [⟨.string, quoted value, span⟩] ∧
        source.expr (limit + 1) origin = .ok (.string value span)) ∧
    (∀ (source : Source) tokens, source.tokens = .ok tokens →
      ∀ token ∈ tokens, token.kind = .string → ∃ value,
        Expr.ofTrees limit (budget + 1) origin [.leaf token] = .ok (.string value token.span) ∧
          (Expr.string value token.span).text = token.text) ∧
    (∀ n text, Text.Decimal text n →
      let source : Source := ⟨text, file⟩
      ∃ span, source.tokens = .ok [⟨.number, text, span⟩] ∧
        source.expr (limit + 1) origin = .ok (.number n span) ∧
        ∃ shown, (Source.mk (Expr.number n span).text file).expr (limit + 1) origin =
          .ok (.number n shown)) ∧
    (∀ (source : Source) tokens, source.tokens = .ok tokens →
      ∀ token ∈ tokens, token.kind = .number → ∃ n : Nat, Text.Decimal token.text n ∧
        Expr.ofTrees limit (budget + 1) origin [.leaf token] = .ok (.number n token.span)) ∧
    ∀ (source : Source) fault,
      source.checkWithin limit = .error fault ∨ source.expr limit origin = .error fault →
        ∀ text, fault.cause ≠ .invalidNumber text := by
  refine ⟨fun value hvalue => ⟨_, tokens_of_owns (.of_quoted hvalue), ?_⟩,
    fun source tokens htokens token htoken hk => ?_, fun n text hn => ?_,
    fun source tokens htokens token htoken hk => ?_, fun source fault h text => ?_⟩
  · rw [expr_of_token (tokens_of_owns (.of_quoted hvalue)) rfl, Reader.readToken,
      Text.unquoted_quoted hvalue]
  · obtain ⟨value, hread, hquoted⟩ := string_value htokens htoken hk
    exact ⟨value, hread, hquoted⟩
  · obtain ⟨span, htokens, hread⟩ := expr_of_decimal hn file limit origin
    obtain ⟨shown, -, hshown⟩ := expr_of_decimal (.toString n) file limit origin
    exact ⟨span, htokens, hread, shown, hshown⟩
  · obtain ⟨n, hread, hn⟩ := number_value htokens htoken hk
    exact ⟨n, hn, hread⟩
  · exact h.elim (fun h => ne_invalidNumber_of_check h text)
      fun h => ne_invalidNumber_of_expr h text

/-- Quotes and zeros at the ends. -/
example : Text.unquoted (quoted "\"a\"\"") = "\"a\"\"" ∧ Text.integerOf "0070" = some 70 := by
  decide +kernel

end LetWhile
