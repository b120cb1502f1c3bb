import LetWhile.Proofs.Printing.Lexemes
import LetWhile.Proofs.Scanning.Coverage

/-!
# Scanning joined texts

A line feed ends every lexeme but white space: no other rule takes it, and none looks past it
(`Rule.StopsAtLine`). So a text, a line feed and another text are scanned as the tokens of the one
and then those of the other, which stand further on by what comes before them
(`Source.tokens_joined`).
-/

namespace LetWhile

open Text (isBlank isWordChar utf8Size)

/-! ## Rules -/

/-- A rule takes no more than there is, and takes the same if a line feed and more text follow. -/
structure Rule.StopsAtLine (rule : Rule) : Prop where
  take_le (cs : List Char) : rule.take cs ≤ cs.length
  take_line (cs ds : List Char) : rule.take (cs ++ '\n' :: ds) = rule.take cs

namespace Lexeme

/-- A run is no longer than the text. -/
theorem run_le (p : Char → Bool) (cs : List Char) : run p cs ≤ cs.length :=
  (List.takeWhile_prefix p).length_le

/-- A run of a class without line feeds ends with the line. -/
theorem run_line {p : Char → Bool} (h : p '\n' = false) (cs ds : List Char) :
    run p (cs ++ '\n' :: ds) = run p cs := by
  induction cs with
  | nil => simp [run, h]
  | cons c cs ih =>
    unfold run at ih ⊢
    by_cases hc : p c
    · simp [hc, ih]
    · simp [hc]

/-- A text without a line feed is not taken from further on. -/
theorem prefix_line_iff {text cs ds : List Char} (h : '\n' ∉ text) :
    text <+: cs ++ '\n' :: ds ↔ text <+: cs := by
  refine ⟨fun hprefix => ?_, fun hprefix => hprefix.trans (List.prefix_append _ _)⟩
  refine prefix_of_prefix_append (p := (· != '\n')) (fun c hc => ?_) (by simp) hprefix
  rw [bne_iff_ne]
  rintro rfl
  exact h hc

/-- A word ends at the end of a text if it does in front of a line feed. -/
theorem wordEnds_line (cs ds : List Char) : wordEnds (cs ++ '\n' :: ds) = wordEnds cs := by
  cases cs with
  | nil => rfl
  | cons c cs => rfl

/-- A comment ends with the line. -/
theorem comment_line (cs ds : List Char) : comment (cs ++ '\n' :: ds) = comment cs := by
  by_cases h : ['/', '/'] <+: cs
  · obtain ⟨cs, rfl⟩ := h
    show 2 + run (· != '\n') (cs ++ '\n' :: ds) = 2 + run (· != '\n') cs
    rw [run_line rfl]
  · rw [comment_eq_zero h, comment_eq_zero]
    rwa [prefix_line_iff (by decide)]

/-- A comment is no longer than the text. -/
theorem comment_le (cs : List Char) : comment cs ≤ cs.length := by
  unfold comment
  split
  · rename_i cs
    have := run_le (· != '\n') cs
    simp only [List.length_cons]
    omega
  · exact Nat.zero_le _

/-- A fixed text without line feeds does not reach beyond the line. -/
theorem exactly_line {text : String} (h : '\n' ∉ text.toList) (cs ds : List Char) :
    exactly text (cs ++ '\n' :: ds) = exactly text cs := by
  unfold exactly
  simp only [List.isPrefixOf_iff_prefix, prefix_line_iff h]

/-- A fixed text is no longer than the text. -/
theorem exactly_le (text : String) (cs : List Char) : exactly text cs ≤ cs.length := by
  unfold exactly
  split
  · rename_i h
    rw [← String.length_toList]
    exact (List.isPrefixOf_iff_prefix.1 h).length_le
  · exact Nat.zero_le _

/-- A reserved word does not reach beyond the line. -/
theorem word_line {text : String} (h : '\n' ∉ text.toList) (cs ds : List Char) :
    Lexeme.word text (cs ++ '\n' :: ds) = Lexeme.word text cs := by
  unfold Lexeme.word
  rw [exactly_line h]
  by_cases hprefix : text.toList <+: cs
  · obtain ⟨rest, rfl⟩ := hprefix
    rw [List.append_assoc, ← String.length_toList, List.drop_left, List.drop_left, wordEnds_line]
  · rw [exactly_eq_zero hprefix, ite_self, ite_self]

/-- A reserved word is no longer than the text. -/
theorem word_le (text : String) (cs : List Char) : Lexeme.word text cs ≤ cs.length := by
  unfold Lexeme.word
  split
  · exact exactly_le text cs
  · exact Nat.zero_le _

/-- The body of a string literal does not reach beyond the line. -/
theorem stringBody_line (cs ds : List Char) : stringBody (cs ++ '\n' :: ds) = stringBody cs := by
  induction cs using stringBody.induct with
  | case1 => rfl
  | case2 cs ih => rw [List.cons_append, List.cons_append, stringBody, ih, stringBody]
  | case3 c cs _ _ hplain ih =>
    rw [List.cons_append, stringBody_cons hplain, ih, stringBody_cons hplain]
  | case4 c cs hquote hescape hplain =>
    rw [List.cons_append, stringBody_eq_none hquote hescape hplain,
      stringBody_eq_none hquote _ hplain]
    intro more hslash hmore
    cases cs with
    | nil => cases hmore
    | cons d cs =>
      cases hmore
      exact hescape cs hslash rfl
  | case5 => rfl

/-- A string literal does not reach beyond the line. -/
theorem stringLiteral_line (cs ds : List Char) :
    stringLiteral (cs ++ '\n' :: ds) = stringLiteral cs := by
  cases cs with
  | nil => rfl
  | cons c cs =>
    by_cases hc : c = '"'
    · subst hc
      rw [List.cons_append, stringLiteral, stringLiteral, stringBody_line]
    · rw [List.cons_append, stringLiteral_eq_zero hc, stringLiteral_eq_zero hc]

/-- A string literal is no longer than the text. -/
theorem stringLiteral_le (cs : List Char) : stringLiteral cs ≤ cs.length := by
  unfold stringLiteral
  split
  · rename_i cs
    cases hbody : stringBody cs with
    | none => exact Nat.zero_le _
    | some n => exact Nat.succ_le_succ (stringBody_le cs n hbody)
  · exact Nat.zero_le _

/-- A number does not reach beyond the line. -/
theorem numeral_line (cs ds : List Char) : numeral (cs ++ '\n' :: ds) = numeral cs := by
  have hrun := run_line (show Char.isDigit '\n' = false from rfl) cs ds
  have hdrop : (cs ++ '\n' :: ds).dropWhile Char.isDigit =
      cs.dropWhile Char.isDigit ++ '\n' :: ds := by
    rw [← drop_run, hrun, List.drop_append_of_le_length (run_le _ cs), drop_run]
  rw [numeral, numeral, hdrop, wordEnds_line, hrun]

/-- A number is no longer than the text. -/
theorem numeral_le (cs : List Char) : numeral cs ≤ cs.length := by
  unfold numeral
  split
  · exact run_le _ cs
  · exact Nat.zero_le _

/-- A name does not reach beyond the line. -/
theorem nameFrom_line {begins : Char → Bool} (h : begins '\n' = false) (cs ds : List Char) :
    nameFrom begins (cs ++ '\n' :: ds) = nameFrom begins cs := by
  cases cs with
  | nil => simp [nameFrom, h]
  | cons c cs => rw [List.cons_append, nameFrom, nameFrom, run_line rfl]

/-- A name is no longer than the text. -/
theorem nameFrom_le (begins : Char → Bool) (cs : List Char) :
    nameFrom begins cs ≤ cs.length := by
  cases cs with
  | nil => exact Nat.le_refl 0
  | cons c cs =>
    have := run_le isNameChar cs
    rw [nameFrom, List.length_cons]
    split <;> omega

end Lexeme

namespace Rule
open Lexeme

/-- The rule of a punctuation mark does not reach beyond a line. -/
theorem punctuation_stopsAtLine (kind : Kind) {text : String} (h : '\n' ∉ text.toList) :
    (punctuation kind text).StopsAtLine := ⟨exactly_le text, exactly_line h⟩

/-- The rule of a reserved word does not reach beyond a line. -/
theorem word_stopsAtLine (kind : Kind) {text : String} (h : '\n' ∉ text.toList) :
    (Rule.mk (some kind) (Lexeme.word text)).StopsAtLine := ⟨word_le text, word_line h⟩

/-- All rules but the first, which is that of white space, stop at a line feed. -/
theorem stopsAtLine : ∀ rule ∈ all.tail, rule.StopsAtLine := by
  simp only [all, List.tail_cons, List.forall_mem_cons, keyword]
  exact ⟨⟨comment_le, comment_line⟩,
    punctuation_stopsAtLine _ (by decide), punctuation_stopsAtLine _ (by decide),
    punctuation_stopsAtLine _ (by decide), punctuation_stopsAtLine _ (by decide),
    punctuation_stopsAtLine _ (by decide), punctuation_stopsAtLine _ (by decide),
    punctuation_stopsAtLine _ (by decide), punctuation_stopsAtLine _ (by decide),
    punctuation_stopsAtLine _ (by decide),
    word_stopsAtLine _ (by decide), word_stopsAtLine _ (by decide),
    word_stopsAtLine _ (by decide), word_stopsAtLine _ (by decide),
    word_stopsAtLine _ (by decide), word_stopsAtLine _ (by decide),
    word_stopsAtLine _ (by decide),
    ⟨stringLiteral_le, stringLiteral_line⟩, ⟨numeral_le, numeral_line⟩,
    ⟨run_le _, run_line (by decide)⟩, ⟨nameFrom_le _, nameFrom_line (by decide)⟩,
    ⟨nameFrom_le _, nameFrom_line (by decide)⟩, List.forall_mem_nil _⟩

/-- Which rule applies first does not depend on what comes after a line feed, if no rule reaches
beyond a line. -/
theorem first?_line {rules : List Rule} (h : ∀ rule ∈ rules, rule.StopsAtLine)
    (cs ds : List Char) : first? (cs ++ '\n' :: ds) rules = first? cs rules := by
  induction rules with
  | nil => rfl
  | cons rule rules ih =>
    obtain ⟨hrule, hrules⟩ := List.forall_mem_cons.1 h
    simp only [first?, hrule.take_line, ih hrules]

end Rule

/-! ## Lexemes -/

/-- A lexeme is no longer than the text. -/
theorem Lexeme.length_le {cs : List Char} {lexeme : Lexeme} (h : lexeme? cs = some lexeme) :
    lexeme.length ≤ cs.length := by
  obtain ⟨rule, hrule, -, hlength⟩ := Rule.of_first? h
  rw [hlength]
  rcases List.mem_cons.1 hrule with rfl | hrule
  · exact run_le isBlank cs
  · exact (Rule.stopsAtLine rule hrule).take_le cs

/-- A lexeme that begins with white space makes no token and is all white space. -/
theorem Lexeme.of_blank {c : Char} (h : isBlank c = true) {cs : List Char} {lexeme : Lexeme}
    (hl : lexeme? (c :: cs) = some lexeme) :
    lexeme.kind? = none ∧ ∀ d ∈ (c :: cs).take lexeme.length, isBlank d = true := by
  cases hl.symm.trans (lexeme?_of_blanks (run_pos h cs))
  refine ⟨rfl, fun d hd => ?_⟩
  rw [show (c :: cs).take _ = _ from take_run isBlank (c :: cs)] at hd
  exact List.mem_takeWhile_imp hd

/-- A lexeme that is not white space ends where the text before a line feed does. -/
theorem lexeme?_line {c : Char} (h : isBlank c = false) (cs ds : List Char) :
    lexeme? (c :: cs ++ '\n' :: ds) = lexeme? (c :: cs) := by
  have hskip (rest : List Char) : lexeme? (c :: rest) = Rule.first? (c :: rest) Rule.all.tail :=
    dif_neg (by simp [Lexeme.run, h])
  rw [List.cons_append, hskip, hskip, ← List.cons_append, Rule.first?_line Rule.stopsAtLine]

/-! ## Tokens -/

/-- A text takes the bytes of its front and of what is behind it. -/
theorem Text.utf8Size_take_add_drop (n : Nat) (cs : List Char) :
    utf8Size (cs.take n) + utf8Size (cs.drop n) = utf8Size cs := by
  rw [← utf8Size_append, List.take_append_drop]

namespace Token

/-- The white space at the front of a text is passed over at once. -/
theorem scanFrom_dropBlanks (offset : Nat) (cs : List Char) :
    scanFrom offset cs =
      scanFrom (offset + utf8Size (cs.takeWhile isBlank)) (cs.dropWhile isBlank) := by
  cases cs with
  | nil => rfl
  | cons c cs =>
    cases hc : isBlank c with
    | true =>
      rw [scanFrom_skip (lexeme?_of_blanks (Lexeme.run_pos hc cs)) rfl, Lexeme.take_run,
        Lexeme.drop_run]
    | false => simp [hc]

/-- White space in front of a text is passed over, also where more of it follows. -/
theorem scanFrom_blanks {gap : List Char} (h : ∀ c ∈ gap, isBlank c = true) (offset : Nat)
    (cs : List Char) : scanFrom offset (gap ++ cs) = scanFrom (offset + utf8Size gap) cs := by
  rw [scanFrom_dropBlanks, List.takeWhile_append_of_pos h, List.dropWhile_append_of_pos h,
    scanFrom_dropBlanks _ cs, Text.utf8Size_append, Nat.add_assoc]

/-- What is in front of a line feed is scanned as it is without it, and then what follows. -/
theorem scanFrom_line (offset : Nat) (cs ds : List Char) : ∀ tokens,
    scanFrom offset cs = .ok tokens →
      scanFrom offset (cs ++ '\n' :: ds) =
        (scanFrom (offset + utf8Size cs + 1) ds).map (tokens ++ ·) := by
  fun_induction scanFrom offset cs with
  | case1 offset =>
    rintro _ ⟨⟩
    rw [show [] ++ '\n' :: ds = ['\n'] ++ ds from rfl,
      scanFrom_blanks (List.forall_mem_singleton.2 rfl)]
    show scanFrom (offset + 1) ds = (scanFrom (offset + 1) ds).map _
    cases scanFrom (offset + 1) ds <;> rfl
  | case2 => rintro _ ⟨⟩
  | case3 => rintro _ ⟨⟩
  | case4 offset c rest lexeme hl text stop found hfound hk ih =>
    rintro _ ⟨⟩
    have hle := Lexeme.length_le hl
    rw [← Text.utf8Size_take_add_drop lexeme.length (c :: rest), ← Nat.add_assoc, ← ih found hfound]
    cases hc : isBlank c with
    | true =>
      -- The white space may go on behind the line feed, so it is passed over piece by piece.
      rw [← scanFrom_blanks (Lexeme.of_blank hc hl).2, ← List.append_assoc, List.take_append_drop]
    | false =>
      rw [scanFrom_skip ((lexeme?_line hc rest ds).trans hl) hk, List.take_append_of_le_length hle,
        List.drop_append_of_le_length hle]
  | case5 offset c rest lexeme hl text stop found hfound kind hk ih =>
    rintro _ ⟨⟩
    have hle := Lexeme.length_le hl
    have hc : isBlank c = false := by
      cases hc : isBlank c with
      | true => cases hk.symm.trans (Lexeme.of_blank hc hl).1
      | false => rfl
    rw [scanFrom_token ((lexeme?_line hc rest ds).trans hl) hk, List.take_append_of_le_length hle,
      List.drop_append_of_le_length hle, ih found hfound,
      ← Text.utf8Size_take_add_drop lexeme.length (c :: rest), ← Nat.add_assoc]
    cases scanFrom _ ds <;> rfl

/-- Where scanning fails in front of a line feed, it fails there whatever follows. -/
theorem scanFrom_line_error (offset : Nat) (cs ds : List Char) : ∀ fault,
    scanFrom offset cs = .error fault →
      ∃ cause, scanFrom offset (cs ++ '\n' :: ds) = .error ⟨cause, fault.pos⟩ := by
  fun_induction scanFrom offset cs with
  | case1 => rintro _ ⟨⟩
  | case2 offset c rest hl =>
    rintro _ ⟨⟩
    have hc : isBlank c = false := by
      cases hc : isBlank c with
      | true => cases hl.symm.trans (lexeme?_of_blanks (Lexeme.run_pos hc rest))
      | false => rfl
    have hnone := (lexeme?_line hc rest ds).trans hl
    rw [List.cons_append] at hnone ⊢
    rw [scanFrom, hnone]
    exact ⟨_, rfl⟩
  | case3 offset c rest lexeme hl text stop fault hfault ih =>
    rintro _ ⟨⟩
    obtain ⟨cause, herror⟩ := ih fault hfault
    have hle := Lexeme.length_le hl
    refine ⟨cause, ?_⟩
    cases hc : isBlank c with
    | true =>
      rw [← herror, ← scanFrom_blanks (Lexeme.of_blank hc hl).2, ← List.append_assoc,
        List.take_append_drop]
    | false =>
      have hl' := (lexeme?_line hc rest ds).trans hl
      cases hk : lexeme.kind? with
      | none =>
        rw [scanFrom_skip hl' hk, List.take_append_of_le_length hle,
          List.drop_append_of_le_length hle]
        exact herror
      | some kind =>
        rw [scanFrom_token hl' hk, List.take_append_of_le_length hle,
          List.drop_append_of_le_length hle, herror]
        rfl
  | case4 => rintro _ ⟨⟩
  | case5 => rintro _ ⟨⟩

/-- Moving a text moves its tokens. -/
theorem scanFrom_add (k offset : Nat) (cs : List Char) :
    scanFrom (offset + k) cs =
      (scanFrom offset cs).relocate (· + k) (List.map (Token.map (· + k))) := by
  fun_induction scanFrom offset cs with
  | case1 => rw [scanFrom]; rfl
  | case2 offset c rest hl =>
    rw [scanFrom, hl]
    rfl
  | case3 offset c rest lexeme hl text stop fault hfault ih =>
    rw [Nat.add_right_comm, hfault] at ih
    cases hk : lexeme.kind? with
    | none => rw [scanFrom_skip hl hk, ih]
    | some kind =>
      rw [scanFrom_token hl hk, ih]
      rfl
  | case4 offset c rest lexeme hl text stop found hfound hk ih =>
    rw [Nat.add_right_comm, hfound] at ih
    rw [scanFrom_skip hl hk, ih]
  | case5 offset c rest lexeme hl text stop found hfound kind hk ih =>
    rw [Nat.add_right_comm, hfound] at ih
    rw [scanFrom_token hl hk, ih]
    simp only [Outcome.relocate_ok, List.map_cons, Token.map, Span.map, stop,
      Nat.add_right_comm offset _ k]
    rfl

end Token

/-! ## Sources -/

/-- A position further on in its file. -/
def Position.shift (k : Nat) (pos : Position) : Position :=
  ⟨pos.offset + UInt32.ofNat k, pos.file⟩

/-- Below `2 ^ 32`, a shifted position has its byte shifted. -/
theorem Position.byte_shift {pos : Position} {k : Nat} (h : pos.byte + k < 2 ^ 32) :
    (pos.shift k).byte = pos.byte + k := by
  unfold byte at h ⊢
  have hk : k < 2 ^ 32 := by omega
  rw [shift, UInt32.toNat_add, UInt32.toNat_ofNat_of_lt' hk, Nat.mod_eq_of_lt h]

/-- The place of a shifted offset is the shifted place. -/
theorem Source.place_add (source : Source) (offset k : Nat) :
    source.place (offset + k) = (source.place offset).shift k := by
  rw [place, UInt32.ofNat_add]
  rfl

/-- Two texts with a line feed between them. -/
theorem Source.toList_joined (a b : String) :
    (a ++ "\n" ++ b).toList = a.toList ++ '\n' :: b.toList := by
  simp [String.toList_append]

/-- Two texts with a line feed between them have the tokens of the first and then those of the
second, further on by the first and the line feed. -/
theorem Source.tokens_joined {a b file : String} {tokens found : List (Token Position)}
    (h : (Source.mk a file).tokens = .ok tokens) (h' : (Source.mk b file).tokens = .ok found) :
    (Source.mk (a ++ "\n" ++ b) file).tokens =
      .ok (tokens ++ found.map (Token.map (Position.shift (a.utf8ByteSize + 1)))) := by
  obtain ⟨first, hfirst, rfl⟩ := Source.tokens_eq_ok h
  obtain ⟨second, hsecond, rfl⟩ := Source.tokens_eq_ok h'
  have hshifted : Token.scanFrom (0 + utf8Size a.toList + 1) b.toList =
      .ok (second.map (Token.map (· + (utf8Size a.toList + 1)))) := by
    rw [Nat.add_assoc, Token.scanFrom_add]
    exact congrArg (Outcome.relocate _ _) hsecond
  have hplace (token : Token Nat) (k : Nat) :
      (token.map (· + k)).map (Source.mk (a ++ "\n" ++ b) file).place =
        (token.map (Source.mk b file).place).map (Position.shift k) := by
    simp only [Token.map, Span.map, Source.place_add]
    rfl
  rw [Source.tokens, toList_joined, Token.scan, Token.scanFrom_line 0 _ _ first hfirst, hshifted,
    Text.utf8ByteSize_eq]
  simp only [Except.map, Outcome.relocate_ok, List.map_append, List.map_map]
  exact congrArg (fun later => Except.ok (_ ++ later)) (List.map_congr_left fun token _ =>
    hplace token _)

end LetWhile
