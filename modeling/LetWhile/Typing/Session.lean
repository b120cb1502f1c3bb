import LetWhile.Fault.Basic
import LetWhile.Typing.OperatorTable
import LetWhile.Typing.Scope

/-!
# Sessions

A session is what a checker remembers: an operator table and a scope. A checking step reads and
changes the session, and what it changed stays changed when it fails, so a step that opens a frame
has to drop it on every way out.
-/

namespace LetWhile

/-- What a checker remembers between programs. -/
structure Session where
  operators : OperatorTable
  scope : Scope

namespace Session
variable {P : Type}

/-- The session that knows the operators of the language and no names. -/
def builtin : Session := ⟨OperatorTable.builtin, Scope.root⟩

/-- The session that knows neither operators nor names. -/
def empty : Session := ⟨OperatorTable.empty, Scope.root⟩

/-- Declares a name in the innermost frame. -/
def declare (session : Session) (name : String) (type : Ty) (pos : P) : Outcome P Session :=
  if session.scope.declares name then .error ⟨.alreadyDeclared name, pos⟩
  else .ok ⟨session.operators, session.scope.declare name type⟩

/-- Opens an inner frame. -/
def enter (session : Session) : Session := ⟨session.operators, session.scope.enter []⟩

/-- Drops the innermost frame, except the last one. -/
def leave (session : Session) : Session := ⟨session.operators, session.scope.leave⟩

/-- Sets or removes the type of an operator. -/
def setOperator (session : Session) (op : Operator) (type? : Option OperatorType) : Session :=
  ⟨session.operators.set op type?, session.scope⟩

end Session

/-! ## Steps -/

/-- A checking step: it yields a result or fails, and leaves a session in either case. -/
abbrev Checking (P α : Type) := ExceptT (Fault P) (StateM Session) α

namespace Checking
variable {P α β : Type}

/-- What a step yields in a session, and the session that it leaves. -/
def run (step : Checking P α) (session : Session) : Outcome P α × Session :=
  StateT.run (ExceptT.run step) session

/-- Declares a name in the innermost frame. -/
def declare (name : String) (type : Ty) (pos : P) : Checking P Unit := do
  let after ← (← get).declare name type pos
  set after

/-- Runs a step inside a new frame, which is dropped afterwards also when the step fails. -/
def inFrame (step : Checking P α) : Checking P α := fun session =>
  let (result, after) := step.run session.enter
  (result, after.leave)

/-- A value leaves the session as it is. -/
@[simp]
theorem run_pure (a : α) (session : Session) :
    run (P := P) (pure a) session = (.ok a, session) := rfl

/-- A fault leaves the session as it is. -/
@[simp]
theorem run_throw (fault : Fault P) (session : Session) :
    run (α := α) (throw fault) session = (.error fault, session) := rfl

/-- An outcome leaves the session as it is. -/
@[simp]
theorem run_lift (outcome : Outcome P α) (session : Session) :
    run (liftM outcome) session = (outcome, session) := rfl

/-- The session can be read. -/
@[simp]
theorem run_get (session : Session) : run (P := P) get session = (.ok session, session) := rfl

/-- The session can be replaced. -/
@[simp]
theorem run_set (next session : Session) : run (P := P) (set next) session = (.ok ⟨⟩, next) := rfl

/-- A step in a frame of its own runs in the inner session, and the frame is left behind it, also
after a fault. -/
@[simp]
theorem run_inFrame (step : Checking P α) (session : Session) :
    (inFrame step).run session =
      ((step.run session.enter).1, (step.run session.enter).2.leave) := rfl

/-- A step that needs the result of another runs in the session which that one leaves, and does not
run when it fails. -/
theorem run_bind (step : Checking P α) (next : α → Checking P β) (session : Session) :
    (step >>= next).run session =
      match step.run session with
      | (.ok a, after) => (next a).run after
      | (.error fault, after) => (.error fault, after) := by
  show (ExceptT.bind step next).run session = _
  unfold run
  simp only [ExceptT.bind, ExceptT.run, ExceptT.mk, StateT.run, bind, StateT.bind]
  rcases step session with ⟨_ | _, _⟩ <;> rfl

end Checking

end LetWhile
