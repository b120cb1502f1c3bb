import LetWhile.Typing.Check
import Mathlib.Data.List.Forall2

/-!
# What checking does to a session

Expressions are checked in the session that they find and leave it as it was, however many frames
were opened inside: a step that changes at most the innermost frame (`Checking.KeepsOuter`) leaves
nothing behind when it runs in a frame of its own (`Checking.KeepsOuter.inFrame`). A statement adds
at most its own name, and nothing when it fails (`Stmt.check_binds`). A block adds the names of the
statements that it got through, and no name is ever lost or given another type (`checking_framed`).
-/

namespace LetWhile

variable {P : Type}

/-! ## Names that are added -/

/-- The name that a statement declares, with its type. -/
def Stmt.declared? : Stmt P → Option (String × Ty)
  | .declare name type _ _ => some (name, type)
  | _ => none

/-- The session with the names that statements declare, the latest first in the innermost frame. -/
def Session.bindAll (session : Session) (stmts : List (Stmt P)) : Session :=
  ⟨session.operators,
    ⟨(stmts.filterMap Stmt.declared?).reverse ++ session.scope.inner, session.scope.outer⟩⟩

/-- No statements bind nothing. -/
@[simp]
theorem Session.bindAll_nil (session : Session) : session.bindAll ([] : List (Stmt P)) = session :=
  rfl

/-- The first statement binds before the others do. -/
theorem Session.bindAll_cons (session : Session) (stmt : Stmt P) (rest : List (Stmt P)) :
    session.bindAll (stmt :: rest) = (session.bindAll [stmt]).bindAll rest := by
  unfold bindAll
  cases h : stmt.declared? with
  | none => simp [h]
  | some declared => simp [h]

/-- Each frame of one scope holds the names of the corresponding frame of another, with the same
types. -/
def Scope.Extends (after before : Scope) : Prop :=
  List.Forall₂ (fun old new : Frame => ∀ name type,
    old.lookup name = some type → new.lookup name = some type) before.frames after.frames

/-- A scope extends itself. -/
theorem Scope.Extends.refl (scope : Scope) : scope.Extends scope :=
  List.forall₂_same.2 fun _ _ _ _ h => h

/-- What extends an extension extends what that extends. -/
theorem Scope.Extends.trans {first second third : Scope} (h : third.Extends second)
    (h' : second.Extends first) : third.Extends first := by
  unfold Extends at *
  refine List.forall₂_iff_get.2 ⟨h'.length_eq.trans h.length_eq, fun i hi hj name type hl => ?_⟩
  have hk : i < second.frames.length := h'.length_eq ▸ hi
  exact (List.forall₂_iff_get.1 h).2 i hk hj name type
    ((List.forall₂_iff_get.1 h').2 i hi hk name type hl)

/-- A name that the innermost frame does not hold can be added to it. -/
theorem Scope.declare_extends {scope : Scope} {name : String} (type : Ty)
    (h : scope.declares name = false) : (scope.declare name type).Extends scope := by
  refine .cons (fun other otherType hl => ?_) (List.forall₂_same.2 fun _ _ _ _ hl => hl)
  have hne : other ≠ name := by
    rintro rfl
    simp [declares, hl] at h
  simpa [declare, List.lookup_cons, beq_eq_false_iff_ne.2 hne] using hl

/-! ## Steps that keep the session -/

namespace Checking
variable {α β : Type}

/-- A step that leaves every session as it finds it, also when it fails. -/
def Keeps (step : Checking P α) : Prop := ∀ session, (step.run session).2 = session

/-- A step that changes nothing but the innermost frame, also when it fails. -/
def KeepsOuter (step : Checking P α) : Prop :=
  ∀ session, (step.run session).2.operators = session.operators ∧
    (step.run session).2.scope.outer = session.scope.outer

/-- A step that leaves the session as it is leaves the outer frames as they are. -/
theorem Keeps.keepsOuter {step : Checking P α} (h : step.Keeps) : step.KeepsOuter := by
  intro session
  rw [h session]
  exact ⟨rfl, rfl⟩

/-- A value leaves the session as it is. -/
theorem Keeps.pure (a : α) : Keeps (P := P) (pure a) := fun _ => rfl

/-- A fault leaves the session as it is. -/
theorem Keeps.throw (fault : Fault P) : Keeps (α := α) (throw fault) := fun _ => rfl

/-- An outcome leaves the session as it is. -/
theorem Keeps.lift (outcome : Outcome P α) : Keeps (liftM outcome : Checking P α) := fun _ => rfl

/-- Steps that leave the session as it is do so one after another. -/
theorem Keeps.bind {step : Checking P α} {next : α → Checking P β} (hs : step.Keeps)
    (hn : ∀ a, (next a).Keeps) : (step >>= next).Keeps := by
  intro session
  rw [run_bind]
  have h := hs session
  rcases hr : step.run session with ⟨_ | a, after⟩
  · rw [hr] at h
    exact h
  · rw [hr] at h
    simp only at h
    subst h
    exact hn a after

/-- Reading the session leaves it as it is. -/
theorem Keeps.get_bind {next : Session → Checking P β} (hn : ∀ session, (next session).Keeps) :
    Keeps (get >>= next) := fun session => by
  rw [run_bind]
  exact hn session session

/-- Steps that leave the outer frames as they are do so one after another. -/
theorem KeepsOuter.bind {step : Checking P α} {next : α → Checking P β} (hs : step.KeepsOuter)
    (hn : ∀ a, (next a).KeepsOuter) : (step >>= next).KeepsOuter := by
  intro session
  rw [run_bind]
  have h := hs session
  rcases hr : step.run session with ⟨_ | a, after⟩
  · rw [hr] at h
    exact h
  · rw [hr] at h
    exact ⟨(hn a after).1.trans h.1, (hn a after).2.trans h.2⟩

/-- Dropping the frame that a step was given restores the session. -/
theorem KeepsOuter.inFrame {step : Checking P α} (h : step.KeepsOuter) : (inFrame step).Keeps := by
  intro session
  obtain ⟨hops, houter⟩ := h session.enter
  rw [run_inFrame]
  simp only [Session.leave, Scope.leave]
  rw [houter, hops]
  rfl

/-- Declaring a name either fails and keeps the session, or puts the name into the innermost
frame, which did not hold it. -/
theorem run_declare (name : String) (type : Ty) (pos : P) (session : Session) :
    (declare name type pos).run session =
      if session.scope.declares name then (.error ⟨.alreadyDeclared name, pos⟩, session)
      else (.ok ⟨⟩, ⟨session.operators, session.scope.declare name type⟩) := by
  unfold declare
  rw [run_bind, run_get]
  simp only [run_bind, run_lift, Session.declare]
  cases session.scope.declares name <;> rfl

/-- A declaration leaves the outer frames as they are. -/
theorem declare_keepsOuter (name : String) (type : Ty) (pos : P) :
    (declare name type pos).KeepsOuter := by
  intro session
  rw [run_declare]
  split <;> exact ⟨rfl, rfl⟩

/-- A step that keeps the session when it fails, and that leaves the name of `stmt` in the innermost
frame, which did not hold it, when it succeeds. -/
def Binds (stmt : Stmt P) (step : Checking P α) : Prop :=
  ∀ session, (∃ fault, step.run session = (.error fault, session)) ∨
    ∃ a, step.run session = (.ok a, session.bindAll [stmt]) ∧
      ∀ name type, stmt.declared? = some (name, type) → session.scope.declares name = false

/-- A statement that declares nothing has a step that keeps the session. -/
theorem Keeps.binds {stmt : Stmt P} {step : Checking P α} (h : step.Keeps)
    (hs : stmt.declared? = none) : step.Binds stmt := by
  intro session
  have hkeep := h session
  have hbind : session.bindAll [stmt] = session := by simp [Session.bindAll, hs]
  rcases hr : step.run session with ⟨fault | a, after⟩
  · rw [hr] at hkeep
    exact .inl ⟨fault, congrArg _ hkeep⟩
  · rw [hr] at hkeep
    exact .inr ⟨a, congrArg _ (hkeep.trans hbind.symm), by simp [hs]⟩

/-- A step that binds a name leaves the outer frames as they are. -/
theorem Binds.keepsOuter {stmt : Stmt P} {step : Checking P α} (h : step.Binds stmt) :
    step.KeepsOuter := by
  intro session
  rcases h session with ⟨_, hr⟩ | ⟨_, hr, -⟩
  · rw [hr]
    exact ⟨rfl, rfl⟩
  · rw [hr]
    exact ⟨rfl, rfl⟩

/-- A step that binds a name extends the scope. -/
theorem Binds.extends {stmt : Stmt P} {step : Checking P α} (h : step.Binds stmt)
    (session : Session) : (step.run session).2.scope.Extends session.scope := by
  rcases h session with ⟨_, hr⟩ | ⟨_, hr, hfresh⟩
  · rw [hr]
    exact .refl _
  · rw [hr]
    cases hs : stmt.declared? with
    | none => simpa [Session.bindAll, hs] using Scope.Extends.refl session.scope
    | some declared =>
      have := Scope.declare_extends declared.2 (hfresh _ _ hs)
      simpa [Session.bindAll, hs, Scope.declare] using this

end Checking

open Checking

/-- Parameters are bound in the innermost frame only. -/
theorem bindParams_keepsOuter (pos : P) :
    ∀ (names : List String) (types : List Ty), (bindParams pos names types).KeepsOuter
  | [], _ | _ :: _, [] => (Keeps.pure _).keepsOuter
  | name :: names, type :: types =>
    (declare_keepsOuter name type pos).bind fun _ => bindParams_keepsOuter pos names types

/-! ## Expressions and blocks -/

-- The induction is on the syntax. An expression keeps the whole session and a block keeps all but
-- the innermost frame; the two meet where a block is checked in a frame of its own.
mutual

/-- Typing an expression leaves the session as it was, whatever is typed inside. -/
theorem Expr.typeFor_keeps (wanted : Option Ty) : ∀ expr : Expr P, (expr.typeFor wanted).Keeps
  | .boolean .. | .number .. | .string .. => Keeps.pure _
  | .symbol name span => by
    refine Keeps.get_bind fun session => ?_
    cases session.scope.find? name with
    | some type => exact Keeps.pure type
    | none => exact Keeps.throw _
  | .operation op args span => by
    refine Keeps.get_bind fun session => ?_
    cases session.operators op with
    | none => exact Keeps.throw _
    | some opType =>
      cases opType with
      | equality =>
        exact (Keeps.lift _).bind fun _ => (Expr.checkEqual_keeps args).bind fun _ => Keeps.pure _
      | fixed params result =>
        exact (Keeps.lift _).bind fun _ =>
          (Expr.checkArgs_keeps args params).bind fun _ => Keeps.pure _
  | .call callee args span => by
    refine (callee.typeFor_keeps none).bind fun type => ?_
    cases type with
    | name => exact Keeps.throw _
    | function params result =>
      exact (Keeps.lift _).bind fun _ =>
        (Expr.checkArgs_keeps args params).bind fun _ => Keeps.pure _
  | .function params body span => by
    unfold Expr.typeFor
    match wanted with
    | none => exact Keeps.throw _
    | some (.name _) => exact Keeps.throw _
    | some (.function types result) =>
      simp only
      split
      · exact Keeps.throw _
      · refine Keeps.bind (KeepsOuter.inFrame ?_) fun _ => (Keeps.lift _).bind fun _ => Keeps.pure _
        exact (bindParams_keepsOuter span.start params types).bind fun _ => body.check_keepsOuter

/-- Checking arguments leaves the session as it was. -/
theorem Expr.checkArgs_keeps :
    ∀ (args : List (Expr P)) (params : List Ty), (Expr.checkArgs args params).Keeps
  | [], _ | _ :: _, [] => Keeps.pure _
  | arg :: args, param :: params =>
    (arg.typeFor_keeps (some param)).bind fun _ =>
      (Keeps.lift _).bind fun _ => Expr.checkArgs_keeps args params

/-- Comparing two arguments leaves the session as it was. -/
theorem Expr.checkEqual_keeps : ∀ args : List (Expr P), (Expr.checkEqual args).Keeps
  | [] => Keeps.pure _
  | left :: rest => (left.typeFor_keeps none).bind fun type => Expr.checkArgs_keeps rest [type]

/-- A statement adds the name that it declares, and nothing when it fails. -/
theorem Stmt.check_binds : ∀ stmt : Stmt P, stmt.check.Binds stmt
  | .declare name type value span => by
    intro session
    -- The value is typed before the name is declared and keeps the session, so the second test of
    -- the name finds what the first one found.
    have hvalue := value.typeFor_keeps (some type) session
    unfold Stmt.check
    simp only [run_bind, run_get]
    cases hd : session.scope.declares name with
    | true => exact .inl ⟨_, rfl⟩
    | false =>
      simp only [run_bind, Bool.false_eq_true, if_false]
      rcases hr : (value.typeFor (some type)).run session with ⟨fault | received, after⟩
      · rw [hr] at hvalue
        exact .inl ⟨fault, congrArg _ hvalue⟩
      · rw [hr] at hvalue
        simp only at hvalue
        subst hvalue
        simp only [run_lift]
        cases agree Use.value type received value.span.start with
        | error fault => exact .inl ⟨fault, rfl⟩
        | ok =>
          simp only [run_declare, hd, Bool.false_eq_true, if_false, run_pure]
          refine .inr ⟨[], rfl, fun _ _ h => ?_⟩
          cases h
          exact hd
  | .assign name value span => by
    refine Keeps.binds (Keeps.get_bind fun session => ?_) rfl
    cases session.scope.find? name with
    | none => exact Keeps.throw _
    | some type =>
      exact (value.typeFor_keeps (some type)).bind fun _ =>
        (Keeps.lift _).bind fun _ => Keeps.pure _
  | .branch condition yes no _ =>
    Keeps.binds ((condition.typeFor_keeps (some Ty.bool)).bind fun _ => (Keeps.lift _).bind fun _ =>
      yes.check_keepsOuter.inFrame.bind fun _ =>
        no.check_keepsOuter.inFrame.bind fun _ => Keeps.pure _) rfl
  | .loop condition body _ =>
    Keeps.binds ((condition.typeFor_keeps (some Ty.bool)).bind fun _ =>
      (Keeps.lift _).bind fun _ => body.check_keepsOuter.inFrame) rfl
  | .returnValue value _ => Keeps.binds ((value.typeFor_keeps none).bind fun _ => Keeps.pure _) rfl
  | .returnVoid _ => Keeps.binds (Keeps.pure _) rfl
  | .expression value _ => Keeps.binds ((value.typeFor_keeps none).bind fun _ => Keeps.pure _) rfl

/-- Checking statements changes nothing but the innermost frame. -/
theorem Stmt.checkAll_keepsOuter : ∀ stmts : List (Stmt P), (Stmt.checkAll stmts).KeepsOuter
  | [] => (Keeps.pure _).keepsOuter
  | stmt :: rest =>
    stmt.check_binds.keepsOuter.bind fun _ =>
      (Stmt.checkAll_keepsOuter rest).bind fun _ => (Keeps.pure _).keepsOuter

/-- Checking a block changes nothing but the innermost frame. -/
theorem Block.check_keepsOuter : ∀ block : Block P, block.check.KeepsOuter
  | .mk stmts _ => (Stmt.checkAll_keepsOuter stmts).bind fun _ => (Keeps.lift _).keepsOuter

end

/-! ## Runs of statements -/

/-- After a statement that succeeds, the rest is checked in the session that it leaves. -/
theorem Stmt.checkAll_cons_run {stmt : Stmt P} {session after : Session} {types : List Ty}
    (h : stmt.check.run session = (.ok types, after)) (rest : List (Stmt P)) :
    (Stmt.checkAll (stmt :: rest)).run session =
      (((Stmt.checkAll rest).run after).1.map (types ++ ·), ((Stmt.checkAll rest).run after).2) := by
  simp only [Stmt.checkAll, run_bind, h]
  rcases (Stmt.checkAll rest).run after with ⟨_ | _, _⟩ <;> rfl

/-- Nothing is checked after a statement that fails. -/
theorem Stmt.checkAll_cons_error {stmt : Stmt P} {session after : Session} {fault : Fault P}
    (h : stmt.check.run session = (.error fault, after)) (rest : List (Stmt P)) :
    (Stmt.checkAll (stmt :: rest)).run session = (.error fault, after) := by
  simp only [Stmt.checkAll, run_bind, h]

/-- Statements are checked up to the first that fails. The session then holds the names of those
before it, in which it fails; when none fails it holds the names of all. -/
theorem Stmt.checkAll_run (stmts : List (Stmt P)) (session : Session) :
    (∃ types, (Stmt.checkAll stmts).run session = (.ok types, session.bindAll stmts)) ∨
      ∃ done stmt rest types fault, stmts = done ++ stmt :: rest ∧
        (Stmt.checkAll done).run session = (.ok types, session.bindAll done) ∧
        stmt.check.run (session.bindAll done) = (.error fault, session.bindAll done) ∧
        (Stmt.checkAll stmts).run session = (.error fault, session.bindAll done) := by
  induction stmts generalizing session with
  | nil => exact .inl ⟨[], rfl⟩
  | cons stmt rest ih =>
    rcases stmt.check_binds session with ⟨fault, hr⟩ | ⟨types, hr, -⟩
    · exact .inr ⟨[], stmt, rest, [], fault, rfl, rfl, hr, Stmt.checkAll_cons_error hr rest⟩
    · rcases ih (session.bindAll [stmt]) with ⟨found, hall⟩ |
        ⟨done, failing, more, found, fault, rfl, hdone, hfail, hall⟩
      · refine .inl ⟨types ++ found, ?_⟩
        rw [Stmt.checkAll_cons_run hr, hall, Session.bindAll_cons session stmt rest]
        rfl
      · rw [← Session.bindAll_cons session stmt done] at hdone hfail hall
        refine .inr ⟨stmt :: done, failing, more, types ++ found, fault, rfl, ?_, hfail, ?_⟩
        · rw [Stmt.checkAll_cons_run hr, hdone]
          rfl
        · rw [Stmt.checkAll_cons_run hr, hall]
          rfl

/-- What every statement keeps of a session is kept by statements that are checked in order, however
far they get. -/
theorem Stmt.checkAll_keeps {p : Session → Prop}
    (hstep : ∀ (stmt : Stmt P) session, p session → p (stmt.check.run session).2) :
    ∀ (stmts : List (Stmt P)) {session : Session}, p session →
      p ((Stmt.checkAll stmts).run session).2
  | [], _, h => h
  | stmt :: rest, session, h => by
    have hstmt := hstep stmt session h
    rcases hr : stmt.check.run session with ⟨_ | types, after⟩
    · rw [hr] at hstmt
      rw [Stmt.checkAll_cons_error hr]
      exact hstmt
    · rw [hr] at hstmt
      rw [Stmt.checkAll_cons_run hr]
      exact Stmt.checkAll_keeps hstep rest hstmt

/-- Checking statements takes no name from any frame and gives none another type. -/
theorem Stmt.checkAll_extends (stmts : List (Stmt P)) (session : Session) :
    ((Stmt.checkAll stmts).run session).2.scope.Extends session.scope :=
  Stmt.checkAll_keeps (p := fun after => after.scope.Extends session.scope)
    (fun stmt before h => (stmt.check_binds.extends before).trans h) stmts (.refl _)

/-- A block leaves the session that its statements leave. -/
theorem Block.check_run (block : Block P) (session : Session) :
    block.check.run session =
      (((Stmt.checkAll block.stmts).run session).1 >>= singleReturn block.span.start,
        ((Stmt.checkAll block.stmts).run session).2) := by
  cases block with
  | mk stmts span =>
    simp only [Block.check, run_bind, Block.stmts, Block.span]
    rcases (Stmt.checkAll stmts).run session with ⟨_ | types, after⟩
    · rfl
    · rfl

/-- Only several return types keep a block from the types that its statements may return. -/
theorem singleReturn_error {pos : P} {types : List Ty} {fault : Fault P}
    (h : singleReturn pos types = .error fault) : ∃ several, fault = ⟨.severalReturnTypes several, pos⟩ := by
  unfold singleReturn at h
  split at h
  · cases h
    exact ⟨_, rfl⟩
  · cases h

/-- Checking keeps the operators and every frame, and adds names only where a declaration succeeds.
Expressions leave the session as it is, whatever they yield. A statement that fails leaves it as it
is, and one that succeeds adds the name that it declares, which was free, to the innermost frame. A
program adds the names of the statements `done` that come before the first one that fails, or of all
its statements if it fails by returning several types or does not fail. -/
theorem checking_framed (session : Session) :
    (∀ expr : Expr P, (expr.infer.run session).2 = session) ∧
    (∀ (use : Use) (expected : Ty) (expr : Expr P),
      ((expr.check use expected).run session).2 = session) ∧
    (∀ stmt : Stmt P, (∃ fault, stmt.check.run session = (.error fault, session)) ∨
      ∃ types, stmt.check.run session = (.ok types, session.bindAll [stmt]) ∧
        ∀ name type, stmt.declared? = some (name, type) → session.scope.declares name = false) ∧
    ∀ program : Block P, ∃ done rest types, program.stmts = done ++ rest ∧
      (Stmt.checkAll done).run session = (.ok types, session.bindAll done) ∧
      (program.check.run session).2 = session.bindAll done ∧
      (program.check.run session).2.scope.Extends session.scope ∧
      match (program.check.run session).1 with
      | .ok _ => rest = []
      | .error fault =>
        (∃ stmt more, rest = stmt :: more ∧
          stmt.check.run (session.bindAll done) = (.error fault, session.bindAll done)) ∨
        (rest = [] ∧ ∃ several, fault = ⟨.severalReturnTypes several, program.span.start⟩) := by
  refine ⟨fun expr => expr.typeFor_keeps none session, fun use expected expr => ?_,
    fun stmt => stmt.check_binds session, fun program => ?_⟩
  · exact ((expr.typeFor_keeps (some expected)).bind fun _ =>
      (Keeps.lift _).bind fun _ => Keeps.pure _) session
  · have hextends := Stmt.checkAll_extends program.stmts session
    rw [program.check_run]
    rcases Stmt.checkAll_run program.stmts session with ⟨types, hall⟩ |
      ⟨done, stmt, more, types, fault, hstmts, hdone, hfail, hall⟩
    · rw [hall] at hextends ⊢
      refine ⟨program.stmts, [], types, by simp, hall, rfl, hextends, ?_⟩
      cases hs : singleReturn program.span.start types with
      | ok single => simp [bind, Except.bind, hs]
      | error fault =>
        simpa [bind, Except.bind, hs] using singleReturn_error hs
    · rw [hall] at hextends ⊢
      exact ⟨done, stmt :: more, types, hstmts, hdone, rfl, hextends, .inl ⟨stmt, more, rfl, hfail⟩⟩

end LetWhile
