import LetWhile.Proofs.Relocation.Programs
import LetWhile.Proofs.Typing.Framing

/-!
# Relocating checks

Checking hands positions on. Moving the nodes of a program moves the position of the fault that is
found in it, and changes neither the cause of the fault, nor the types that are found, nor the
session that is left (`Session.run_relocate`).
-/

namespace LetWhile

variable {P Q : Type}

/-! ## Steps that hand positions on -/

namespace Checking
variable {α β : Type} {f : P → Q}

/-- Two steps do the same in every session, but for the position of their fault. -/
def Relocates (f : P → Q) (step : Checking P α) (step' : Checking Q α) : Prop :=
  ∀ session, step'.run session = ((step.run session).1.relocate f id, (step.run session).2)

/-- A step that only returns a value does so wherever it is located. -/
theorem Relocates.pure (a : α) : Relocates f (pure a) (pure a) := fun _ => rfl

/-- A fault is thrown at the place that its own place is moved to. -/
theorem Relocates.throw (fault : Fault P) :
    Relocates (α := α) f (throw fault) (throw (fault.map f)) := fun _ => rfl

/-- An outcome that is relocated is one also as a step. -/
theorem Relocates.lift {outcome : Outcome P α} {outcome' : Outcome Q α}
    (h : outcome.relocate f id = outcome') : Relocates f (liftM outcome) (liftM outcome') := by
  subst h
  exact fun _ => rfl

/-- Steps that are relocated are relocated one after another. -/
theorem Relocates.bind {step : Checking P α} {step' : Checking Q α} {next : α → Checking P β}
    {next' : α → Checking Q β} (hs : Relocates f step step')
    (hn : ∀ a, Relocates f (next a) (next' a)) : Relocates f (step >>= next) (step' >>= next') := by
  intro session
  rw [run_bind, run_bind, hs session]
  rcases step.run session with ⟨_ | a, after⟩
  · rfl
  · exact hn a after

/-- A step that reads the session first is relocated if it is for every session, since sessions have
no places. -/
theorem Relocates.get_bind {next : Session → Checking P β} {next' : Session → Checking Q β}
    (hn : ∀ session, Relocates f (next session) (next' session)) :
    Relocates f (get >>= next) (get >>= next') := fun session => by
  rw [run_bind, run_bind]
  exact hn session session

/-- A step is relocated in a frame of its own as it is outside. -/
theorem Relocates.inFrame {step : Checking P α} {step' : Checking Q α}
    (h : Relocates f step step') : Relocates f (inFrame step) (inFrame step') := fun session => by
  rw [run_inFrame, run_inFrame, h session.enter]

/-- A name that is declared twice is a fault at the moved place. -/
theorem declare_relocates (f : P → Q) (name : String) (type : Ty) (pos : P) :
    Relocates f (declare name type pos) (declare name type (f pos)) := by
  intro session
  rw [run_declare, run_declare]
  split <;> rfl

end Checking

open Checking Outcome

/-! ## Parts -/

/-- A wrong number of arguments is a fault at the moved end of the call. -/
theorem checkCount_relocate (f : P → Q) (expected : Nat) (args : List (Expr P)) (span : Span P) :
    (checkCount expected args span).relocate f id =
      checkCount expected (args.map (Expr.map f)) (span.map f) := by
  unfold checkCount
  rw [List.getElem?_map, List.length_map]
  cases args[expected]? with
  | some extra => simp [Fault.map, Span.map]
  | none =>
    simp only [Option.map_none]
    split <;> rfl

/-- Several types that are returned are a fault at the moved place. -/
theorem singleReturn_relocate (f : P → Q) (pos : P) (types : List Ty) :
    (singleReturn pos types).relocate f id = singleReturn (f pos) types := by
  unfold singleReturn
  split <;> rfl

/-- A body that returns another type than it should is a fault at the moved place. -/
theorem checkResult_relocate (f : P → Q) (pos : P) (expected : Ty) (returned : List Ty) :
    (checkResult pos expected returned).relocate f id = checkResult (f pos) expected returned := by
  cases returned with
  | nil => rfl
  | cons first more =>
    simp only [checkResult]
    split <;> rfl

/-- Two types that do not agree are a fault at the moved place. -/
theorem agree_relocate (f : P → Q) (use : Use) (expected received : Ty) (pos : P) :
    (agree use expected received pos).relocate f id = agree use expected received (f pos) := by
  unfold agree
  split <;> rfl

/-- The parameters of a function are bound alike at the moved place. -/
theorem bindParams_relocates (f : P → Q) (pos : P) : ∀ (names : List String) (types : List Ty),
    Relocates f (bindParams pos names types) (bindParams (f pos) names types)
  | [], _ | _ :: _, [] => .pure _
  | name :: names, type :: types =>
    (declare_relocates f name type pos).bind fun _ => bindParams_relocates f pos names types

/-! ## Expressions and blocks -/

/-- A moved block has the moved span. -/
@[simp]
theorem Block.span_map (f : P → Q) (block : Block P) : (block.map f).span = block.span.map f := by
  cases block
  rfl

-- The induction is on the syntax, along the recursion of the checker.
mutual

/-- An expression has the same type, or the moved fault, with its places moved. -/
theorem Expr.typeFor_relocates (f : P → Q) (wanted : Option Ty) : ∀ expr : Expr P,
    Relocates f (expr.typeFor wanted) ((expr.map f).typeFor wanted)
  | .boolean .. | .number .. | .string .. => .pure _
  | .symbol name span => by
    refine .get_bind fun session => ?_
    cases session.scope.find? name with
    | some type => exact .pure type
    | none => exact .throw _
  | .operation op args span => by
    rw [Expr.map, Expr.mapAll_eq_map]
    refine .get_bind fun session => ?_
    cases session.operators op with
    | none => exact .throw _
    | some opType =>
      cases opType with
      | equality =>
        exact (Relocates.lift (checkCount_relocate f 2 args span)).bind fun _ =>
          (Expr.checkEqual_relocates f args).bind fun _ => .pure _
      | fixed params result =>
        exact (Relocates.lift (checkCount_relocate f _ args span)).bind fun _ =>
          (Expr.checkArgs_relocates f args params).bind fun _ => .pure _
  | .call callee args span => by
    rw [Expr.map, Expr.mapAll_eq_map]
    refine (callee.typeFor_relocates f none).bind fun type => ?_
    cases type with
    | name =>
      have := Relocates.throw (α := Ty) (f := f) ⟨.notCallable (.name ‹_›), callee.span.start⟩
      rw [Expr.span_map]
      exact this
    | function params result =>
      exact (Relocates.lift (checkCount_relocate f _ args span)).bind fun _ =>
        (Expr.checkArgs_relocates f args params).bind fun _ => .pure _
  | .function params body span => by
    rw [Expr.map]
    unfold Expr.typeFor
    match wanted with
    | none => exact .throw _
    | some (.name _) => exact .throw _
    | some (.function types result) =>
      simp only
      split
      · exact .throw _
      · refine Relocates.bind (.inFrame ?_) fun returned => ?_
        · exact (bindParams_relocates f span.start params types).bind fun _ =>
            body.check_relocates f
        · rw [Block.span_map]
          exact (Relocates.lift (checkResult_relocate f body.span.start result returned)).bind
            fun _ => .pure _

/-- Arguments are checked against parameters alike with their places moved. -/
theorem Expr.checkArgs_relocates (f : P → Q) : ∀ (args : List (Expr P)) (params : List Ty),
    Relocates f (Expr.checkArgs args params) (Expr.checkArgs (args.map (Expr.map f)) params)
  | [], _ | _ :: _, [] => .pure _
  | arg :: args, param :: params => by
    rw [List.map_cons]
    unfold Expr.checkArgs
    refine (arg.typeFor_relocates f (some param)).bind fun received => ?_
    rw [Expr.span_map]
    exact (Relocates.lift (agree_relocate f .argument param received arg.span.start)).bind
      fun _ => Expr.checkArgs_relocates f args params

/-- The operands of an equality are checked alike with their places moved. -/
theorem Expr.checkEqual_relocates (f : P → Q) : ∀ args : List (Expr P),
    Relocates f (Expr.checkEqual args) (Expr.checkEqual (args.map (Expr.map f)))
  | [] => .pure _
  | left :: rest =>
    (left.typeFor_relocates f none).bind fun type => Expr.checkArgs_relocates f rest [type]

/-- A statement is checked alike with its places moved, and returns the same types. -/
theorem Stmt.check_relocates (f : P → Q) : ∀ stmt : Stmt P,
    Relocates f stmt.check (stmt.map f).check
  | .declare name type value span => by
    rw [Stmt.map]
    unfold Stmt.check
    refine .get_bind fun session => ?_
    split
    · exact .throw _
    · refine (value.typeFor_relocates f (some type)).bind fun received => ?_
      rw [Expr.span_map]
      exact (Relocates.lift (agree_relocate f .value type received value.span.start)).bind
        fun _ => (declare_relocates f name type span.start).bind fun _ => .pure _
  | .assign name value span => by
    rw [Stmt.map]
    unfold Stmt.check
    refine .get_bind fun session => ?_
    cases session.scope.find? name with
    | none => exact .throw _
    | some type =>
      refine (value.typeFor_relocates f (some type)).bind fun received => ?_
      rw [Expr.span_map]
      exact (Relocates.lift (agree_relocate f .value type received value.span.start)).bind
        fun _ => .pure _
  | .branch condition yes no span => by
    rw [Stmt.map]
    unfold Stmt.check
    refine (condition.typeFor_relocates f (some Ty.bool)).bind fun received => ?_
    rw [Expr.span_map]
    exact (Relocates.lift (agree_relocate f .value Ty.bool received condition.span.start)).bind
      fun _ => (yes.check_relocates f).inFrame.bind fun _ =>
        (no.check_relocates f).inFrame.bind fun _ => .pure _
  | .loop condition body span => by
    rw [Stmt.map]
    unfold Stmt.check
    refine (condition.typeFor_relocates f (some Ty.bool)).bind fun received => ?_
    rw [Expr.span_map]
    exact (Relocates.lift (agree_relocate f .value Ty.bool received condition.span.start)).bind
      fun _ => (body.check_relocates f).inFrame
  | .returnValue value _ | .expression value _ =>
    (value.typeFor_relocates f none).bind fun _ => .pure _
  | .returnVoid _ => .pure _

/-- Statements are checked alike one after another with their places moved. -/
theorem Stmt.checkAll_relocates (f : P → Q) : ∀ stmts : List (Stmt P),
    Relocates f (Stmt.checkAll stmts) (Stmt.checkAll (stmts.map (Stmt.map f)))
  | [] => .pure _
  | stmt :: rest =>
    (stmt.check_relocates f).bind fun _ => (Stmt.checkAll_relocates f rest).bind fun _ => .pure _

/-- Checking a block hands positions on. -/
theorem Block.check_relocates (f : P → Q) : ∀ block : Block P,
    Relocates f block.check (block.map f).check
  | .mk stmts span => by
    rw [Block.map, Stmt.mapAll_eq_map]
    exact (Stmt.checkAll_relocates f stmts).bind fun types =>
      .lift (singleReturn_relocate f span.start types)

end

/-- Checking a program at another place leaves the same session and yields the same types, or the
same fault at the other place. -/
theorem Session.run_relocate (f : P → Q) (session : Session) (program : Block P) :
    session.run (program.map f) =
      ((session.run program).1, (session.run program).2.relocate f id) := by
  unfold Session.run
  rw [program.check_relocates f session]

end LetWhile
