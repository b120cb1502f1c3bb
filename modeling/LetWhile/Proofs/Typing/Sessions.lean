import LetWhile.Proofs.Typing.Adequacy

/-!
# Programs checked in parts

A program can be checked in parts, one after the other in the same session. Each part is checked in
the session that the parts before it leave, so the statements get through alike
(`Stmt.checkAll_append`); only the returns are looked at once for each part, and have to agree
across the parts as well (`singleReturn_append_ok_iff`). Both together say when the parts can be
checked for the whole (`Session.run_parts`).
-/

namespace LetWhile

open Checking

variable {P : Type}

/-! ## Statements -/

/-- Statements that follow others are checked after them, and all their types are collected. -/
theorem Stmt.checkAll_append (stmts more : List (Stmt P)) :
    Stmt.checkAll (stmts ++ more) = (do
      let types ← Stmt.checkAll stmts
      let others ← Stmt.checkAll more
      pure (types ++ others)) := by
  induction stmts with
  | nil => simp [Stmt.checkAll]
  | cons stmt rest ih =>
    simp only [List.cons_append, Stmt.checkAll, ih, bind_assoc, pure_bind, List.append_assoc]

/-! ## Returns -/

/-- A list of types has one distinct type at most exactly if its parts do, separately and
together. -/
theorem singleReturn_append_ok_iff {pos first second : P} {types others distinct : List Ty} :
    singleReturn pos (types ++ others) = .ok distinct ↔
      ∃ returns rest, singleReturn first types = .ok returns ∧
        singleReturn second others = .ok rest ∧ (Ty.dedup (returns ++ rest)).length ≤ 1 ∧
        distinct = Ty.dedup (returns ++ rest) := by
  simp only [singleReturn_ok_iff]
  refine ⟨?_, ?_⟩
  · intro h
    obtain ⟨rfl, hlength⟩ := h
    have hsame := Ty.length_dedup_le_one_iff.1 hlength
    refine ⟨_, _, ⟨rfl, Ty.length_dedup_le_one_iff.2 fun t ht u hu => ?_⟩,
      ⟨rfl, Ty.length_dedup_le_one_iff.2 fun t ht u hu => ?_⟩, ?_⟩
    · exact hsame t (List.mem_append_left _ ht) u (List.mem_append_left _ hu)
    · exact hsame t (List.mem_append_right _ ht) u (List.mem_append_right _ hu)
    · rw [Ty.dedup_append_dedup]
      exact ⟨hlength, rfl⟩
  · intro h'
    obtain ⟨_, _, ⟨rfl, -⟩, ⟨rfl, -⟩, hlength, rfl⟩ := h'
    rw [Ty.dedup_append_dedup] at hlength ⊢
    exact ⟨rfl, hlength⟩

/-- Several distinct types are all reported. -/
theorem singleReturn_of_one_lt (pos : P) {types : List Ty} (h : 1 < (Ty.dedup types).length) :
    singleReturn pos types = .error ⟨.severalReturnTypes (Ty.dedup types), pos⟩ := by
  unfold singleReturn
  split
  · rename_i hdistinct
    rw [hdistinct]
  · rename_i hdistinct
    match hd : Ty.dedup types, h with
    | first :: second :: more, _ => exact absurd hd (hdistinct first second more)

/-! ## Programs -/

/-- A program is run by checking its statements in the session and then their types. -/
theorem Session.run_mk (session : Session) (stmts : List (Stmt P)) (span : Span P) :
    session.run (.mk stmts span) = (((Stmt.checkAll stmts).run session).2,
      ((Stmt.checkAll stmts).run session).1 >>= singleReturn span.start) := by
  rw [Session.run, Block.check_run]
  rfl

/-- A program is well typed exactly if its two parts are, the second in the session that the first
leaves, and the types that they return are one at most together. It then returns what they do and
leaves the session that the second part leaves. If the parts are well typed and return different
types, this is the fault of the program, and it leaves the same session still. -/
theorem Session.run_parts (session : Session) (stmts more : List (Stmt P))
    (span later whole : Span P) :
    let first := session.run (.mk stmts span)
    let second := first.1.run (.mk more later)
    let both := session.run (.mk (stmts ++ more) whole)
    (∀ types, both.2 = .ok types ↔ ∃ returns others, first.2 = .ok returns ∧
      second.2 = .ok others ∧ (Ty.dedup (returns ++ others)).length ≤ 1 ∧
      types = Ty.dedup (returns ++ others)) ∧
    (∀ types, both.2 = .ok types → both.1 = second.1) ∧
    ∀ returns others, first.2 = .ok returns → second.2 = .ok others →
      1 < (Ty.dedup (returns ++ others)).length →
      both = (second.1,
        .error ⟨.severalReturnTypes (Ty.dedup (returns ++ others)), whole.start⟩) := by
  simp only [Session.run_mk, Stmt.checkAll_append, run_bind]
  rcases (Stmt.checkAll stmts).run session with ⟨fault | types, after⟩
  · simp [bind, Except.bind]
  · simp only
    rcases (Stmt.checkAll more).run after with ⟨fault | others, last⟩
    · simp [bind, Except.bind]
    · simp only [run_pure, bind, Except.bind]
      refine ⟨fun distinct => singleReturn_append_ok_iff, fun _ _ => trivial, ?_⟩
      intro returns rest hreturns hrest hlength
      obtain ⟨rfl, -⟩ := singleReturn_ok_iff.1 hreturns
      obtain ⟨rfl, -⟩ := singleReturn_ok_iff.1 hrest
      rw [Ty.dedup_append_dedup] at hlength ⊢
      rw [singleReturn_of_one_lt whole.start hlength]

/-- Each of two statements may return, but they return different types. -/
theorem Session.run_parts_conflict :
    let number : Stmt Nat := .returnValue (.number 1 ⟨7, 8⟩) ⟨0, 9⟩
    let nothing : Stmt Nat := .returnVoid ⟨10, 17⟩
    let first := Session.builtin.run (.mk [number] ⟨0, 9⟩)
    let second := first.1.run (.mk [nothing] ⟨10, 17⟩)
    first.2 = .ok [Ty.int] ∧ second.2 = .ok [Ty.void] ∧
      Session.builtin.run (.mk ([number] ++ [nothing]) ⟨0, 17⟩) =
        (second.1, .error ⟨.severalReturnTypes [Ty.int, Ty.void], 0⟩) := by
  intro number nothing first second
  have hfirst : first.2 = .ok [Ty.int] := rfl
  have hsecond : second.2 = .ok [Ty.void] := rfl
  exact ⟨hfirst, hsecond, (Session.run_parts Session.builtin [number] [nothing] ⟨0, 9⟩ ⟨10, 17⟩
    ⟨0, 17⟩).2.2 _ _ hfirst hsecond (by decide)⟩

end LetWhile
