import LetWhile.Proofs.Scanning.Layout
import Mathlib.Data.String.Basic

/-!
# Tokens cover their source

The tokens of a source stand in it one after another, each token is the text at its span, and
between them there is nothing but white space and comments (`Token.Covers`). This holds of every
source that is scanned, as long as its offsets are below `2 ^ 32` (`Source.tokens_cover`).
-/

namespace LetWhile

/-! ## Parts of a text -/

namespace Text

/-- The size of a text is the one that positions in it are counted in. -/
theorem utf8Size_eq_utf8Len (cs : List Char) : utf8Size cs = String.utf8Len cs :=
  String.utf8ByteSize_ofList cs

/-- The size of a string is that of its characters. -/
theorem utf8ByteSize_eq (text : String) : text.utf8ByteSize = utf8Size text.toList := by
  rw [utf8Size, String.ofList_toList]

/-- Only the empty text takes no bytes. -/
theorem utf8Size_pos {cs : List Char} (h : cs ≠ []) : 0 < utf8Size cs := by
  obtain ⟨c, cs, rfl⟩ := List.exists_cons_of_ne_nil h
  have := c.utf8Size_pos
  rw [utf8Size_cons]
  omega

/-- A part of a text stands between two byte offsets. -/
def Stands (text : String) (start : Nat) (part : List Char) (stop : Nat) : Prop :=
  ∃ before after, text.toList = before ++ part ++ after ∧ start = utf8Size before ∧
    stop = start + utf8Size part

section
variable {text : String} {start stop : Nat} {part : List Char}

/-- A part begins where a character of the text does, or at its end. -/
theorem Stands.isValid_start (h : Stands text start part stop) :
    String.Pos.Raw.IsValid text ⟨start⟩ := by
  obtain ⟨before, after, htext, rfl, -⟩ := h
  refine String.Pos.Raw.isValid_iff_exists_append.2
    ⟨String.ofList before, String.ofList (part ++ after), ?_, ?_⟩
  · rw [← String.ofList_append, ← List.append_assoc, ← htext, String.ofList_toList]
  · rw [String.rawEndPos_ofList, utf8Size_eq_utf8Len]

/-- The part after a part. -/
theorem Stands.after (h : Stands text start part stop) :
    ∃ after, Stands text stop after text.utf8ByteSize := by
  obtain ⟨before, after, htext, rfl, rfl⟩ := h
  refine ⟨after, before ++ part, [], by rw [htext, List.append_nil], ?_, ?_⟩
  · rw [utf8Size_append]
  · rw [utf8ByteSize_eq, htext, utf8Size_append, utf8Size_append]

/-- A part stops where a character of the text begins, or at its end. -/
theorem Stands.isValid_stop (h : Stands text start part stop) :
    String.Pos.Raw.IsValid text ⟨stop⟩ := by
  obtain ⟨after, hafter⟩ := h.after
  exact hafter.isValid_start

/-- What is between the offsets of a part is the part. -/
theorem Stands.extract_eq (h : Stands text start part stop) :
    String.Pos.Raw.extract text ⟨start⟩ ⟨stop⟩ = String.ofList part := by
  obtain ⟨before, after, htext, rfl, rfl⟩ := h
  have := String.extract_of_valid before part after
  rwa [← htext, String.ofList_toList, ← utf8Size_eq_utf8Len, ← utf8Size_eq_utf8Len] at this

end

end Text

/-! ## Coverage -/

namespace Token

/-- The pairs of offsets between which there is no token: before the first one, between neighbours
and after the last one, in a text or a rest of it from `start` to `stop`. -/
def gaps (start stop : Nat) : List (Token Nat) → List (Nat × Nat)
  | [] => [(start, stop)]
  | token :: rest => (start, token.span.start) :: gaps token.span.stop stop rest

/-- Tokens cover a text: they are stretches of it, in order and apart, and all else is trivia. -/
structure Covers (text : String) (tokens : List (Token Nat)) : Prop where
  nonempty : ∀ token ∈ tokens, token.span.start < token.span.stop
  ordered : tokens.Pairwise fun first second => first.span.stop ≤ second.span.start
  boundaries : ∀ token ∈ tokens, String.Pos.Raw.IsValid text ⟨token.span.start⟩ ∧
    String.Pos.Raw.IsValid text ⟨token.span.stop⟩
  spelled : ∀ token ∈ tokens,
    String.Pos.Raw.extract text ⟨token.span.start⟩ ⟨token.span.stop⟩ = token.text
  gaps : ∀ gap ∈ gaps 0 text.utf8ByteSize tokens,
    Text.Trivia (String.Pos.Raw.extract text ⟨gap.2⟩ ⟨text.utf8ByteSize⟩).toList
      (String.Pos.Raw.extract text ⟨gap.1⟩ ⟨gap.2⟩).toList

open Text (Stands Trivia utf8Size)

section
variable {text : String} {before cs : List Char} {tokens : List (Token Nat)}

/-- No token of a layout starts before its offset. -/
theorem Layout.le_start {offset : Nat} (h : Layout offset cs tokens) :
    ∀ token ∈ tokens, offset ≤ token.span.start := by
  induction h with
  | done => exact List.forall_mem_nil _
  | token _ _ _ hstart hstop _ ih =>
    refine List.forall_mem_cons.2 ⟨by simp only; omega, fun token htoken => ?_⟩
    have := ih token htoken
    omega

/-- Each token of a layout stops before the next one starts. -/
theorem Layout.ordered {offset : Nat} (h : Layout offset cs tokens) :
    tokens.Pairwise fun first second => first.span.stop ≤ second.span.start := by
  induction h with
  | done => exact .nil
  | token _ _ _ _ _ hrest ih => exact .cons hrest.le_start ih

/-- A text whose rest begins with a gap is cut after the gap and after the lexeme behind it. -/
theorem split_of_append {gap : List Char} (h : text.toList = before ++ (gap ++ cs)) (length : Nat) :
    text.toList = before ++ gap ++ cs.take length ++ cs.drop length := by
  rw [h, List.append_assoc (before ++ gap), List.take_append_drop, List.append_assoc]

/-- The tokens of the rest of a text stand in the text, after what precedes the rest. -/
theorem Layout.stands {offset : Nat} (h : Layout offset cs tokens)
    (htext : text.toList = before ++ cs) (hoffset : offset = utf8Size before) :
    ∀ token ∈ tokens, token.span.start < token.span.stop ∧
      Stands text token.span.start token.text.toList token.span.stop := by
  induction h generalizing before with
  | done => exact List.forall_mem_nil _
  | @token offset start stop gap cs lexeme kind tokens hgap hl hk hstart hstop _ ih =>
    have hne : cs.take lexeme.length ≠ [] := by
      have hlength := lexeme.length_pos
      cases cs with
      | nil => cases hl
      | cons c rest => simp; omega
    have hpos := Text.utf8Size_pos hne
    have hsplit := split_of_append htext lexeme.length
    refine List.forall_mem_cons.2 ⟨⟨by simp only; omega, ?_⟩, ih hsplit ?_⟩
    · refine ⟨before ++ gap, cs.drop lexeme.length, ?_, ?_, ?_⟩
      · rw [hsplit, String.toList_ofList]
      · rw [Text.utf8Size_append, hstart, hoffset]
      · rw [hstop, String.toList_ofList]
    · rw [Text.utf8Size_append, Text.utf8Size_append]
      omega

/-- Between the tokens of a layout there is trivia. -/
theorem Layout.trivia {offset : Nat} (h : Layout offset cs tokens)
    (htext : text.toList = before ++ cs) (hoffset : offset = utf8Size before) :
    ∀ gap ∈ gaps offset text.utf8ByteSize tokens, ∃ part after, Trivia after part ∧
      Stands text gap.1 part gap.2 ∧ Stands text gap.2 after text.utf8ByteSize := by
  induction h generalizing before with
  | @done offset gap hgap =>
    have hsize : text.utf8ByteSize = offset + utf8Size gap := by
      rw [Text.utf8ByteSize_eq, htext, Text.utf8Size_append, hoffset]
    refine List.forall_mem_singleton.2 ⟨gap, [], hgap, ⟨before, [], ?_, hoffset, hsize⟩, ?_⟩
    · rw [htext, List.append_nil]
    · exact ⟨text.toList, [], by simp, Text.utf8ByteSize_eq text, rfl⟩
  | @token offset start stop gap cs lexeme kind tokens hgap hl hk hstart hstop _ ih =>
    have hsplit := split_of_append htext lexeme.length
    refine List.forall_mem_cons.2 ⟨⟨gap, cs, hgap, ?_, ?_⟩, ?_⟩
    · exact ⟨before, cs, by rw [htext, List.append_assoc], hoffset, hstart⟩
    · refine ⟨before ++ gap, [], by rw [htext, List.append_nil, List.append_assoc], ?_, ?_⟩
      · rw [Text.utf8Size_append, ← hoffset]
        exact hstart
      · rw [Text.utf8ByteSize_eq, htext, Text.utf8Size_append, Text.utf8Size_append]
        show _ = start + _
        omega
    · exact ih hsplit (by rw [Text.utf8Size_append, Text.utf8Size_append]; omega)

end

/-- A text is covered by the tokens it is scanned as. -/
theorem scan_covers {text : String} {tokens : List (Token Nat)}
    (h : scan text.toList = .ok tokens) : Covers text tokens := by
  have hlayout := layout_of_scanFrom 0 text.toList tokens h
  have htext : text.toList = [] ++ text.toList := rfl
  have hstands := hlayout.stands htext rfl
  refine ⟨fun token ht => (hstands token ht).1, hlayout.ordered, fun token ht => ?_,
    fun token ht => ?_, fun gap hgap => ?_⟩
  · have := (hstands token ht).2
    exact ⟨this.isValid_start, this.isValid_stop⟩
  · rw [(hstands token ht).2.extract_eq, String.ofList_toList]
  · obtain ⟨part, after, htrivia, hpart, hafter⟩ :=
      hlayout.trivia htext rfl gap hgap
    rw [hpart.extract_eq, hafter.extract_eq, String.toList_ofList, String.toList_ofList]
    exact htrivia

end Token

/-! ## Sources -/

/-- The byte offset of a position. -/
def Position.byte (pos : Position) : Nat := pos.offset.toNat

/-- Below `2 ^ 32`, the place of an offset has that offset. -/
theorem Source.byte_place (source : Source) {offset : Nat} (h : offset < 2 ^ 32) :
    (source.place offset).byte = offset := UInt32.toNat_ofNat_of_lt' h

/-- The tokens of a source, at their byte offsets, cover its text, and they stand in its file. -/
theorem Source.tokens_cover {source : Source} {tokens : List (Token Position)}
    (hsize : source.text.utf8ByteSize < 2 ^ 32) (h : source.tokens = .ok tokens) :
    Token.Covers source.text (tokens.map (Token.map Position.byte)) ∧
      ∀ token ∈ tokens,
        token.span.start.file = source.file ∧ token.span.stop.file = source.file := by
  obtain ⟨found, hscan, rfl⟩ := Source.tokens_eq_ok h
  have hcovers := Token.scan_covers hscan
  have hbyte : ∀ token ∈ found, (token.map source.place).map Position.byte = token := by
    intro token ht
    have hle := (hcovers.boundaries token ht).2.le_utf8ByteSize
    have hlt := hcovers.nonempty token ht
    obtain ⟨kind, text, start, stop⟩ := token
    simp only [Token.map, Span.map] at hle hlt ⊢
    rw [source.byte_place (by omega), source.byte_place (by omega)]
  have hmap : (found.map (Token.map source.place)).map (Token.map Position.byte) = found := by
    rw [List.map_map]
    exact (List.map_congr_left hbyte).trans (List.map_id' found)
  refine ⟨by rwa [hmap], fun token ht => ?_⟩
  obtain ⟨token, -, rfl⟩ := List.mem_map.1 ht
  exact ⟨rfl, rfl⟩

/-- A name between a comment that holds a character of two bytes and a semicolon after a space that
takes two bytes. -/
def Source.spaced : Source := ⟨"// é\nx\u00a0;", "demo.let"⟩

/-- Tokens between white space and comments. -/
theorem Source.tokens_cover_spaced :
    let place := Source.spaced.place
    let tokens : List (Token Position) :=
      [⟨.identifier, "x", ⟨place 6, place 7⟩⟩, ⟨.semicolon, ";", ⟨place 9, place 10⟩⟩]
    Source.spaced.text.utf8ByteSize < 2 ^ 32 ∧ Source.spaced.tokens = .ok tokens ∧
      Token.Covers Source.spaced.text (tokens.map (Token.map Position.byte)) ∧
        ∀ token ∈ tokens,
          token.span.start.file = "demo.let" ∧ token.span.stop.file = "demo.let" := by
  intro place tokens
  have hsize : Source.spaced.text.utf8ByteSize < 2 ^ 32 := by decide
  have htokens : Source.spaced.tokens = .ok tokens := by decide +kernel
  exact ⟨hsize, htokens, Source.tokens_cover hsize htokens⟩

end LetWhile
