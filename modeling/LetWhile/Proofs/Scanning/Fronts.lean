import LetWhile.Proofs.Scanning.Characters
import LetWhile.Proofs.Scanning.Joined

/-!
# What stands in front of a place

Scanning passes over a text lexeme by lexeme (`Passed`). At a place that it comes to, the line so
far is white space and characters of one byte: what else a line can hold stands in a comment, which
goes on to the end of the line (`Passed.lineClear`). Where a token starts or stops, or scanning
fails, there is no white space on one side (`Landmark`).
-/

namespace LetWhile

open Text (isBlank LineEnds utf8Size isSolid)

/-! ## Lines -/

/-- In the last line of a text every character is white space or takes up one byte. -/
def Text.LineClear : List Char → Prop
  | [] => True
  | c :: cs => ('\n' ∈ cs ∨ isBlank c = true ∨ c.utf8Size = 1) ∧ LineClear cs

namespace Text.LineClear

/-- A text of such characters is clear in its last line. -/
theorem of_forall {cs : List Char} (h : ∀ c ∈ cs, isBlank c = true ∨ c.utf8Size = 1) :
    LineClear cs := by
  induction cs with
  | nil => trivial
  | cons c cs ih =>
    obtain ⟨hc, hcs⟩ := List.forall_mem_cons.1 h
    exact ⟨.inr hc, ih hcs⟩

/-- Two texts that are clear in their last lines are so together. -/
theorem append {cs ds : List Char} (h : LineClear cs) (h' : LineClear ds) :
    LineClear (cs ++ ds) := by
  induction cs with
  | nil => exact h'
  | cons c cs ih => exact ⟨h.1.imp_left (List.mem_append_left ds), ih h.2⟩

/-- What stands in front of a line feed does not count. -/
theorem of_newline {ds : List Char} (h : LineClear ds) (hmem : '\n' ∈ ds) (cs : List Char) :
    LineClear (cs ++ ds) := by
  induction cs with
  | nil => exact h
  | cons c cs ih => exact ⟨.inl (List.mem_append_right cs hmem), ih⟩

/-- A text of one line that is clear consists of such characters. -/
theorem forall_mem {line : List Char} (h : LineClear line) (hline : '\n' ∉ line) :
    ∀ c ∈ line, isBlank c = true ∨ c.utf8Size = 1 := by
  induction line with
  | nil => exact List.forall_mem_nil _
  | cons c line ih =>
    have hline : '\n' ∉ line := fun hmem => hline (.tail _ hmem)
    exact List.forall_mem_cons.2 ⟨h.1.resolve_left hline, ih h.2 hline⟩

/-- The end of a text is clear in its last line if the text is. -/
theorem of_append {above line : List Char} (h : LineClear (above ++ line)) : LineClear line := by
  induction above with
  | nil => exact h
  | cons c above ih => exact ih h.2

end Text.LineClear

open Text (LineClear)

/-! ## Lexemes -/

/-- The front of a text is passed over lexeme by lexeme, up to a rest. -/
inductive Passed (rest : List Char) : List Char → Prop
  | nil : Passed rest []
  | lexeme {piece front : List Char} {lexeme : Lexeme} :
    lexeme? (piece ++ front ++ rest) = some lexeme → piece.length = lexeme.length →
    Passed rest front → Passed rest (piece ++ front)

section
variable {cs rest front : List Char} {lexeme : Lexeme} {kind : Kind}

/-- What is passed over without a token is white space, or all that is left of its line. -/
theorem Lexeme.blanks_or_lineEnds (h : lexeme? cs = some lexeme) (hk : lexeme.kind? = none) :
    (∀ c ∈ cs.take lexeme.length, isBlank c = true) ∨ LineEnds (cs.drop lexeme.length) := by
  obtain ⟨rule, hrule, hkind, hlength⟩ := Rule.of_first? h
  have hpos := lexeme.length_pos
  rw [hlength] at hpos ⊢
  rcases Rule.of_kind?_eq_none hrule (hkind.symm.trans hk) with rfl | rfl
  · refine .inl fun c hc => ?_
    rw [show cs.take _ = _ from take_run isBlank cs] at hc
    exact List.mem_takeWhile_imp hc
  · refine .inr ?_
    simp only at hpos ⊢
    unfold comment at hpos ⊢
    split at hpos
    · rename_i cs
      rw [Nat.add_comm, List.drop_succ_cons, List.drop_succ_cons, drop_run]
      intro c hc
      have := List.head?_dropWhile_not (· != '\n') cs
      rw [Option.mem_def.1 hc] at this
      simpa using this
    · exact absurd hpos (Nat.lt_irrefl 0)

/-- A front is passed over from the lexeme before it on. -/
theorem Passed.of_drop (h : Passed rest front) (hl : lexeme? cs = some lexeme)
    (hdrop : cs.drop lexeme.length = front ++ rest) :
    cs = cs.take lexeme.length ++ front ++ rest ∧ Passed rest (cs.take lexeme.length ++ front) := by
  have hcs : cs = cs.take lexeme.length ++ front ++ rest := by
    rw [List.append_assoc, ← hdrop, List.take_append_drop]
  exact ⟨hcs, .lexeme (hcs ▸ hl) (List.length_take_of_le (Lexeme.length_le hl)) h⟩

/-- The characters of a token take up one byte. -/
theorem Lexeme.lineClear (h : lexeme? cs = some lexeme) (hk : lexeme.kind? = some kind) :
    LineClear (cs.take lexeme.length) := by
  refine .of_forall fun c hc => .inr ?_
  rcases isSolid_or_space h hk c hc with hsolid | rfl
  · exact Text.utf8Size_of_isSolid hsolid
  · rfl

/-- At a place that scanning comes to, the line so far is clear, unless it is at its end. -/
theorem Passed.lineClear (h : Passed rest front) : LineEnds rest ∨ LineClear front := by
  induction h with
  | nil => exact .inr trivial
  | @lexeme piece front lexeme hl hlength _ ih =>
    rcases ih with hends | hclear
    · exact .inl hends
    rw [List.append_assoc] at hl
    have htake : (piece ++ (front ++ rest)).take lexeme.length = piece := by
      rw [← hlength, List.take_left]
    cases hk : lexeme.kind? with
    | some kind =>
      have hpiece := Lexeme.lineClear hl hk
      rw [htake] at hpiece
      exact .inr (hpiece.append hclear)
    | none =>
      have hblanks := Lexeme.blanks_or_lineEnds hl hk
      rw [htake, ← hlength, List.drop_left] at hblanks
      rcases hblanks with hblanks | hends
      · have hpiece : LineClear piece := .of_forall fun c hc => .inl (hblanks c hc)
        exact .inr (hpiece.append hclear)
      -- The comment ends in front of a line feed, or at the end of the text.
      · cases front with
        | nil => exact .inl hends
        | cons c front =>
          cases hends c rfl
          exact .inr (hclear.of_newline (.head _) piece)

/-- A place with no white space on one side, in a line that is clear so far. -/
structure Landmark (before behind : List Char) : Prop where
  touches : (∃ c ∈ before.getLast?, isBlank c = false) ∨ ∃ c ∈ behind.head?, isBlank c = false
  lineClear : LineClear before

/-- Where scanning goes on with something else than white space, there is a landmark. -/
theorem Passed.landmark (h : Passed rest front) (hrest : ∃ c ∈ rest.head?, isBlank c = false) :
    Landmark front rest := by
  refine ⟨.inr hrest, h.lineClear.resolve_left fun hends => ?_⟩
  obtain ⟨c, hc, hblank⟩ := hrest
  cases hends c hc
  cases hblank

/-- A token begins with something else than white space. -/
theorem Lexeme.isBlank_head (h : lexeme? cs = some lexeme) (hk : lexeme.kind? = some kind) :
    ∃ c ∈ cs.head?, isBlank c = false := by
  cases cs with
  | nil => cases h
  | cons c cs =>
    refine ⟨c, rfl, Bool.eq_false_iff.2 fun hblank => ?_⟩
    cases hk.symm.trans (of_blank hblank h).1

/-- Where no lexeme begins, there is no white space. -/
theorem Lexeme.isBlank_head_of_none (h : lexeme? cs = none) (hne : cs ≠ []) :
    ∃ c ∈ cs.head?, isBlank c = false := by
  obtain ⟨c, cs, rfl⟩ := List.exists_cons_of_ne_nil hne
  refine ⟨c, rfl, Bool.eq_false_iff.2 fun hblank => ?_⟩
  cases h.symm.trans (lexeme?_of_blanks (run_pos hblank cs))

/-- Behind a token there is a landmark. -/
theorem Passed.landmark_behind (h : Passed rest front) (hl : lexeme? rest = some lexeme)
    (hk : lexeme.kind? = some kind) :
    Landmark (front ++ rest.take lexeme.length) (rest.drop lexeme.length) := by
  have hclear := (h.landmark (Lexeme.isBlank_head hl hk)).lineClear
  have hne : rest.take lexeme.length ≠ [] := by
    have hle := Lexeme.length_le hl
    have hpos := lexeme.length_pos
    refine List.ne_nil_of_length_pos ?_
    rwa [List.length_take_of_le hle]
  refine ⟨.inl ?_, ?_⟩
  · obtain ⟨c, hc⟩ := Option.ne_none_iff_exists'.1 (mt List.getLast?_eq_none_iff.1 hne)
    refine ⟨c, ?_, Text.isBlank_of_isSolid (Lexeme.isSolid_last hl hk c hc)⟩
    rw [List.getLast?_append_of_ne_nil _ hne]
    exact hc
  · exact hclear.append (Lexeme.lineClear hl hk)

end

/-! ## Scanning -/

namespace Token

/-- Scanning fails at a place that it comes to, where no lexeme begins. -/
theorem passed_of_scanFrom_error (offset : Nat) (cs : List Char) : ∀ fault,
    scanFrom offset cs = .error fault → ∃ front rest, cs = front ++ rest ∧ Passed rest front ∧
      rest ≠ [] ∧ lexeme? rest = none ∧ fault.pos = offset + utf8Size front := by
  fun_induction scanFrom offset cs with
  | case1 => rintro _ ⟨⟩
  | case2 offset c rest hl =>
    rintro _ ⟨⟩
    exact ⟨[], c :: rest, rfl, .nil, List.cons_ne_nil _ _, hl, rfl⟩
  | case3 offset c rest lexeme hl piece stop found hfound ih =>
    rintro _ ⟨⟩
    obtain ⟨front, last, hdrop, hpassed, hne, hnone, hpos⟩ := ih found hfound
    obtain ⟨hcs, hpassed⟩ := hpassed.of_drop hl hdrop
    refine ⟨_, last, hcs, hpassed, hne, hnone, ?_⟩
    rw [hpos, Text.utf8Size_append, Nat.add_assoc]
  | case4 => rintro _ ⟨⟩
  | case5 => rintro _ ⟨⟩

/-- A token is found in a text that begins at an offset: at a place that scanning comes to, it is
the lexeme there. -/
def FoundIn (offset : Nat) (cs : List Char) (token : Token Nat) : Prop :=
  ∃ front rest lexeme, cs = front ++ rest ∧ Passed rest front ∧ lexeme? rest = some lexeme ∧
    lexeme.kind? = some token.kind ∧ token.span =
      ⟨offset + utf8Size front, offset + utf8Size (front ++ rest.take lexeme.length)⟩

/-- What is found behind the first lexeme of a text is found in the text. -/
theorem FoundIn.of_drop {offset : Nat} {cs : List Char} {lexeme : Lexeme} {token : Token Nat}
    (hl : lexeme? cs = some lexeme)
    (h : token.FoundIn (offset + utf8Size (cs.take lexeme.length)) (cs.drop lexeme.length)) :
    token.FoundIn offset cs := by
  obtain ⟨front, rest, other, hdrop, hpassed, hother, hk, hspan⟩ := h
  obtain ⟨hcs, hpassed⟩ := hpassed.of_drop hl hdrop
  refine ⟨_, rest, other, hcs, hpassed, hother, hk, ?_⟩
  rw [hspan, List.append_assoc, Text.utf8Size_append (cs.take _), Text.utf8Size_append (cs.take _),
    Nat.add_assoc, Nat.add_assoc]

/-- Every token is found in the text that it is scanned from. -/
theorem foundIn_of_scanFrom (offset : Nat) (cs : List Char) : ∀ tokens,
    scanFrom offset cs = .ok tokens → ∀ token ∈ tokens, token.FoundIn offset cs := by
  fun_induction scanFrom offset cs with
  | case1 =>
    rintro _ ⟨⟩
    exact List.forall_mem_nil _
  | case2 => rintro _ ⟨⟩
  | case3 => rintro _ ⟨⟩
  | case4 offset c rest lexeme hl text stop found hfound hk ih =>
    rintro _ ⟨⟩ token htoken
    exact .of_drop hl (ih found hfound token htoken)
  | case5 offset c rest lexeme hl text stop found hfound kind hk ih =>
    rintro _ ⟨⟩
    refine List.forall_mem_cons.2 ⟨?_, fun token htoken => ?_⟩
    · exact ⟨[], c :: rest, lexeme, rfl, .nil, hl, hk, rfl⟩
    · exact .of_drop hl (ih found hfound token htoken)

end Token

end LetWhile
