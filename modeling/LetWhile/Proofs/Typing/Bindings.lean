import LetWhile.Proofs.Typing.Returns
import LetWhile.Proofs.Typing.Stability
import Mathlib.Data.List.Nodup

/-!
# What a checked program leaves

Statements declare only names that are new to the innermost frame, so no frame has a name twice
(`Session.run_distinct`). The session after a program that is well typed on its own has one frame,
which holds the names that the program declares directly, with their types
(`Source.scope_of_checkWithin`). The program yields a type if and only if a return statement stands in
it outside function literals (`Source.returns_of_checkWithin`). Both together say what a check finds
out about a program (`Checked.Matches`).
-/

namespace LetWhile

open Checking

variable {P : Type}

/-! ## Frames without repeated names -/

namespace Frame

/-- No name is declared twice in a frame. -/
def Distinct (frame : Frame) : Prop := (frame.map Prod.fst).Nodup

/-- The names of a frame are distinct in either order. -/
theorem distinct_reverse {frame : Frame} : Distinct frame.reverse ↔ frame.Distinct := by
  unfold Distinct
  rw [List.map_reverse, List.nodup_reverse]

/-- In a frame without repeated names each entry is found. -/
theorem Distinct.lookup_eq_some_iff {frame : Frame} (h : frame.Distinct) {name : String} {type : Ty} :
    frame.lookup name = some type ↔ (name, type) ∈ frame := by
  refine ⟨?_, ?_⟩
  · intro hlookup
    obtain ⟨before, after, rfl, -⟩ := List.lookup_eq_some_iff.1 hlookup
    exact List.mem_append_right _ (.head _)
  · intro hmem
    obtain ⟨before, after, rfl⟩ := List.append_of_mem hmem
    refine List.lookup_eq_some_iff.2 ⟨before, after, rfl, fun entry hentry => ?_⟩
    unfold Distinct at h
    rw [List.map_append, List.nodup_append] at h
    have hne : entry.1 ≠ name := h.2.2 _ (List.mem_map_of_mem hentry) _ (.head _)
    simpa [bne_iff_ne] using hne.symm

end Frame

/-- The names of a frame stay distinct when one is declared that it does not have. -/
theorem Scope.declare_distinct {scope : Scope} {name : String} (type : Ty)
    (h : Frame.Distinct scope.inner) (hname : scope.declares name = false) :
    Frame.Distinct (scope.declare name type).inner := by
  refine List.nodup_cons.2 ⟨fun hmem => ?_, h⟩
  obtain ⟨entry, hentry, rfl⟩ := List.mem_map.1 hmem
  have hdeclares : scope.declares entry.1 = true :=
    List.lookup_isSome_iff.2 ⟨entry, hentry, beq_self_eq_true _⟩
  rw [hdeclares] at hname
  cases hname

/-- A statement does not repeat a name of the innermost frame. -/
theorem Stmt.check_distinct (stmt : Stmt P) {session : Session}
    (h : Frame.Distinct session.scope.inner) :
    Frame.Distinct (stmt.check.run session).2.scope.inner := by
  rcases stmt.check_binds session with ⟨fault, hrun⟩ | ⟨types, hrun, hfresh⟩
  · rw [hrun]
    exact h
  · rw [hrun]
    cases hs : stmt.declared? with
    | none => simpa [Session.bindAll, hs] using h
    | some declared =>
      have := Scope.declare_distinct declared.2 h (hfresh declared.1 declared.2 hs)
      simpa [Session.bindAll, hs, Scope.declare] using this

/-! ## The names of a program -/

/-- The names that a block declares directly, with their types, in the order of the text. -/
def Block.bindings (block : Block P) : List (String × Ty) := block.stmts.filterMap Stmt.declared?

/-- What a block declares are the declarations among its statements. -/
theorem Block.mem_bindings {block : Block P} {name : String} {type : Ty} :
    (name, type) ∈ block.bindings ↔
      ∃ value span, Stmt.declare name type value span ∈ block.stmts := by
  unfold bindings
  rw [List.mem_filterMap]
  refine ⟨?_, ?_⟩
  · rintro ⟨stmt, hmem, hdeclared⟩
    cases stmt with
    | declare other otherType value span =>
      cases hdeclared
      exact ⟨value, span, hmem⟩
    | _ => cases hdeclared
  · rintro ⟨value, span, hmem⟩
    exact ⟨_, hmem, rfl⟩

/-- The session after a program that is well typed has the names that the program declares. -/
theorem Session.run_ok {session after : Session} {program : Block P} {returns : List Ty}
    (h : session.run program = (after, .ok returns)) : after = session.bindAll program.stmts := by
  obtain ⟨stmts, span⟩ := program
  rw [Session.run_mk] at h
  rcases Stmt.checkAll_run stmts session with ⟨types, hall⟩ | ⟨_, _, _, _, fault, -, -, -, hfail⟩
  · rw [hall] at h
    exact (congrArg Prod.fst h).symm
  · rw [hfail] at h
    cases h

/-- A program does not repeat a name of the innermost frame, however far it is checked. -/
theorem Session.run_distinct (program : Block P) {session : Session}
    (h : Frame.Distinct session.scope.inner) :
    Frame.Distinct (session.run program).1.scope.inner := by
  obtain ⟨stmts, span⟩ := program
  rw [Session.run_mk]
  exact Stmt.checkAll_keeps (p := fun after => Frame.Distinct after.scope.inner)
    (fun stmt _ hinner => stmt.check_distinct hinner) stmts h

/-- A well-typed source leaves one frame, with the names that its program declares directly. These are
distinct. -/
theorem Source.scope_of_checkWithin {source : Source} {limit : Nat} {checked : Checked}
    (h : source.checkWithin limit = .ok checked) :
    checked.session.scope = ⟨checked.program.bindings.reverse, []⟩ ∧
      Frame.Distinct checked.program.bindings := by
  have hrun := (checkWithin_eq_ok_iff.1 h).2
  have hscope : checked.session.scope = ⟨checked.program.bindings.reverse, []⟩ := by
    rw [Session.run_ok hrun]
    exact congrArg (Scope.mk · []) (List.append_nil _)
  have hdistinct : Frame.Distinct (Session.builtin.run checked.program).1.scope.inner :=
    Session.run_distinct checked.program .nil
  rw [hrun, hscope] at hdistinct
  exact ⟨hscope, Frame.distinct_reverse.1 hdistinct⟩

/-- In a well-typed source a name has a type at the top level if it is declared there with this
type. -/
theorem Source.find?_of_checkWithin {source : Source} {limit : Nat} {checked : Checked}
    (h : source.checkWithin limit = .ok checked) {name : String} {type : Ty} :
    checked.session.scope.find? name = some type ↔ (name, type) ∈ checked.program.bindings := by
  obtain ⟨hscope, hdistinct⟩ := scope_of_checkWithin h
  rw [hscope, Scope.find?_eq, List.findSome?_nil, Option.or_none,
    (Frame.distinct_reverse.2 hdistinct).lookup_eq_some_iff, List.mem_reverse]

/-! ## Returns -/

mutual

/-- A return statement stands in a statement, outside function literals. -/
def Stmt.HasReturn : Stmt P → Prop
  | .declare .. | .assign .. | .expression .. => False
  | .branch _ yes no _ => yes.HasReturn ∨ no.HasReturn
  | .loop _ body _ => body.HasReturn
  | .returnValue .. | .returnVoid _ => True

/-- A return statement stands in one of several statements. -/
def Stmt.AnyReturn : List (Stmt P) → Prop
  | [] => False
  | stmt :: rest => stmt.HasReturn ∨ Stmt.AnyReturn rest

/-- A return statement stands in a block. -/
def Block.HasReturn : Block P → Prop
  | .mk stmts _ => Stmt.AnyReturn stmts

end

mutual

/-- A statement has types to return exactly if there is a return in it. -/
theorem Stmt.returns_ne_nil_iff : ∀ (stmt : Stmt P) (session : Session),
    stmt.returns session ≠ [] ↔ stmt.HasReturn
  | .declare .., _ | .assign .., _ | .expression .., _ | .returnValue .., _ | .returnVoid _, _ => by
    simp [Stmt.returns, Stmt.HasReturn]
  | .branch _ yes no _, session => by
    rw [Stmt.returns, Stmt.HasReturn, ← yes.returns_ne_nil_iff session.enter,
      ← no.returns_ne_nil_iff session.enter, ne_eq, List.append_eq_nil_iff, not_and_or]
  | .loop _ body _, session => body.returns_ne_nil_iff session.enter

/-- Statements have types to return exactly if there is a return in one of them. -/
theorem Stmt.allReturns_ne_nil_iff : ∀ (stmts : List (Stmt P)) (session : Session),
    Stmt.allReturns session stmts ≠ [] ↔ Stmt.AnyReturn stmts
  | [], _ => by simp [Stmt.allReturns, Stmt.AnyReturn]
  | stmt :: rest, session => by
    rw [Stmt.allReturns, Stmt.AnyReturn, ← stmt.returns_ne_nil_iff session,
      ← Stmt.allReturns_ne_nil_iff rest (session.bindAll [stmt]), ne_eq, List.append_eq_nil_iff,
      not_and_or]

/-- A block has returns if return statements stand in it. -/
theorem Block.returns_ne_nil_iff : ∀ (block : Block P) (session : Session),
    block.returns session ≠ [] ↔ block.HasReturn
  | .mk stmts _, session => Stmt.allReturns_ne_nil_iff stmts session

end

/-- A well-typed source returns one type if a return statement stands in it outside function
literals, and none otherwise. -/
theorem Source.returns_of_checkWithin {source : Source} {limit : Nat} {checked : Checked}
    (h : source.checkWithin limit = .ok checked) :
    (¬ checked.program.HasReturn ∧ checked.returns = []) ∨
      (checked.program.HasReturn ∧ ∃ type, checked.returns = [type]) := by
  have hrun := congrArg Prod.snd (checkWithin_eq_ok_iff.1 h).2
  obtain ⟨types, htypes, hdedup, hlength⟩ := checked.program.returns_of_ok Session.builtin hrun
  have hiff := checked.program.returns_ne_nil_iff Session.builtin
  rw [htypes] at hiff
  cases types with
  | nil => exact .inl ⟨fun hreturn => hiff.2 hreturn rfl, hdedup.symm⟩
  | cons type rest =>
    rw [← hdedup] at hlength ⊢
    exact .inr ⟨hiff.1 (List.cons_ne_nil _ _), type, Ty.dedup_cons_eq_singleton hlength⟩

/-! ## Results of a check -/

/-- The result of a check says what its program says. There is one frame, which maps the names that
are declared at the top level, which are distinct, to their types, and there is one type that is
returned if a return statement stands in the program outside function literals, and none otherwise. -/
structure Checked.Matches (checked : Checked) : Prop where
  frame : ∃ frame, checked.session.scope.frames = [frame] ∧ ∀ name type,
    frame.lookup name = some type ↔
      ∃ value span, Stmt.declare name type value span ∈ checked.program.stmts
  distinct : (checked.program.bindings.map Prod.fst).Nodup
  returns : (¬ checked.program.HasReturn ∧ checked.returns = []) ∨
    (checked.program.HasReturn ∧ ∃ type, checked.returns = [type])

/-- The result of a check matches the program that was checked. -/
theorem Source.matches_of_checkWithin {source : Source} {limit : Nat} {checked : Checked}
    (h : source.checkWithin limit = .ok checked) : checked.Matches := by
  obtain ⟨hscope, hdistinct⟩ := scope_of_checkWithin h
  have hframes : checked.session.scope.frames = [checked.program.bindings.reverse] := by
    rw [hscope]
    rfl
  refine ⟨⟨_, hframes, fun name type => ?_⟩, hdistinct, returns_of_checkWithin h⟩
  rw [(Frame.distinct_reverse.2 hdistinct).lookup_eq_some_iff, List.mem_reverse,
    Block.mem_bindings]

end LetWhile
