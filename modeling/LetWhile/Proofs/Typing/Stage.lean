import LetWhile.Proofs.Outline.Stage
import LetWhile.Proofs.Typing.Framing

/-!
# Faults of typing

Whatever is checked, and in whichever session, what is wrong with it is found by the stage of typing
(`Session.run_faultsIn`). A step has this property if its parts have it.
-/

namespace LetWhile

variable {P : Type}

namespace Checking
variable {α β : Type}

/-- In every session, the faults of a step are those of typing. -/
def FaultsTyping (step : Checking P α) : Prop :=
  ∀ session, (step.run session).1.FaultsIn (· = .typing)

namespace FaultsTyping

/-- A value is no fault. -/
theorem pure (a : α) : FaultsTyping (P := P) (pure a) := fun _ => .ok a

/-- A fault of typing may be thrown. -/
theorem throw {fault : Fault P} (h : fault.cause.stage = .typing) :
    FaultsTyping (α := α) (throw fault) := fun _ => .error h

/-- An outcome has its faults in typing as a step if it does by itself. -/
theorem lift {outcome : Outcome P α} (h : outcome.FaultsIn (· = .typing)) :
    FaultsTyping (liftM outcome : Checking P α) := fun _ => h

/-- Steps with faults of typing only have no others one after another. -/
theorem bind {step : Checking P α} {next : α → Checking P β} (hs : step.FaultsTyping)
    (hn : ∀ a, (next a).FaultsTyping) : (step >>= next).FaultsTyping := by
  intro session
  rw [run_bind]
  have h := hs session
  rcases hr : step.run session with ⟨fault | a, after⟩
  · rw [hr] at h
    exact .error (h fault rfl)
  · exact hn a after

/-- A step that reads the session has faults of typing only if it does for every session. -/
theorem get_bind {next : Session → Checking P β} (hn : ∀ session, (next session).FaultsTyping) :
    FaultsTyping (get >>= next) := fun session => by
  rw [run_bind]
  exact hn session session

/-- A step has the same faults in a frame of its own. -/
theorem inFrame {step : Checking P α} (h : step.FaultsTyping) : (inFrame step).FaultsTyping :=
  fun session => h session.enter

end FaultsTyping

/-- Declaring a name fails in typing only: the name is declared already. -/
theorem declare_faultsTyping (name : String) (type : Ty) (pos : P) :
    (declare name type pos).FaultsTyping := by
  intro session
  rw [run_declare]
  split
  · exact .error rfl
  · exact .ok _

end Checking

open Checking

/-! ## Parts -/

/-- Binding parameters fails in typing only: two of them have the same name. -/
theorem bindParams_faultsTyping (pos : P) :
    ∀ (names : List String) (types : List Ty), (bindParams pos names types).FaultsTyping
  | [], _ | _ :: _, [] => .pure _
  | name :: names, type :: types =>
    (declare_faultsTyping name type pos).bind fun _ => bindParams_faultsTyping pos names types

/-- A wrong number of arguments is a fault of typing. -/
theorem checkCount_faultsIn (expected : Nat) (args : List (Expr P)) (span : Span P) :
    (checkCount expected args span).FaultsIn (· = .typing) := by
  unfold checkCount
  split
  · exact .error rfl
  · split
    · exact .error rfl
    · exact .ok _

/-- Two types that do not agree are a fault of typing. -/
theorem agree_faultsIn (use : Use) (expected received : Ty) (pos : P) :
    (agree use expected received pos).FaultsIn (· = .typing) := by
  unfold agree
  split
  · exact .ok _
  · cases use <;> exact .error rfl

/-- A body that returns another type than it should is a fault of typing. -/
theorem checkResult_faultsIn (pos : P) (expected : Ty) (returned : List Ty) :
    (checkResult pos expected returned).FaultsIn (· = .typing) := by
  unfold checkResult
  split
  · exact .ok _
  · split
    · exact .ok _
    · exact .error rfl

/-- Several types that are returned are a fault of typing. -/
theorem singleReturn_faultsIn (pos : P) (types : List Ty) :
    (singleReturn pos types).FaultsIn (· = .typing) := by
  unfold singleReturn
  split
  · exact .error rfl
  · exact .ok _

/-! ## Expressions and blocks -/

-- The induction is on the syntax, along the recursion of the checker.
mutual

/-- Typing an expression finds faults of typing only. -/
theorem Expr.typeFor_faultsTyping (wanted : Option Ty) :
    ∀ expr : Expr P, (expr.typeFor wanted).FaultsTyping
  | .boolean .. | .number .. | .string .. => .pure _
  | .symbol name span => by
    refine .get_bind fun session => ?_
    cases session.scope.find? name with
    | some type => exact .pure type
    | none => exact .throw rfl
  | .operation op args span => by
    refine .get_bind fun session => ?_
    cases session.operators op with
    | none => exact .throw rfl
    | some type =>
      cases type with
      | equality =>
        exact (FaultsTyping.lift (checkCount_faultsIn _ _ _)).bind fun _ =>
          (Expr.checkEqual_faultsTyping args).bind fun _ => .pure _
      | fixed params result =>
        exact (FaultsTyping.lift (checkCount_faultsIn _ _ _)).bind fun _ =>
          (Expr.checkArgs_faultsTyping args params).bind fun _ => .pure _
  | .call callee args span => by
    refine (callee.typeFor_faultsTyping none).bind fun type => ?_
    cases type with
    | name => exact .throw rfl
    | function params result =>
      exact (FaultsTyping.lift (checkCount_faultsIn _ _ _)).bind fun _ =>
        (Expr.checkArgs_faultsTyping args params).bind fun _ => .pure _
  | .function params body span => by
    unfold Expr.typeFor
    split
    · exact .throw rfl
    · split
      · exact .throw rfl
      · refine FaultsTyping.bind (.inFrame ?_) fun _ =>
          (FaultsTyping.lift (checkResult_faultsIn _ _ _)).bind fun _ => .pure _
        exact (bindParams_faultsTyping _ _ _).bind fun _ => body.check_faultsTyping
    · exact .throw rfl

/-- Checking arguments finds faults of typing only. -/
theorem Expr.checkArgs_faultsTyping :
    ∀ (args : List (Expr P)) (params : List Ty), (Expr.checkArgs args params).FaultsTyping
  | [], _ | _ :: _, [] => .pure _
  | arg :: args, param :: params =>
    (arg.typeFor_faultsTyping (some param)).bind fun _ =>
      (FaultsTyping.lift (agree_faultsIn _ _ _ _)).bind fun _ =>
        Expr.checkArgs_faultsTyping args params

/-- Comparing two arguments finds faults of typing only. -/
theorem Expr.checkEqual_faultsTyping :
    ∀ args : List (Expr P), (Expr.checkEqual args).FaultsTyping
  | [] => .pure _
  | left :: rest =>
    (left.typeFor_faultsTyping none).bind fun type => Expr.checkArgs_faultsTyping rest [type]

/-- Checking a statement finds faults of typing only. -/
theorem Stmt.check_faultsTyping : ∀ stmt : Stmt P, stmt.check.FaultsTyping
  | .declare name type value span => by
    refine .get_bind fun session => ?_
    split
    · exact .throw rfl
    · exact (value.typeFor_faultsTyping (some type)).bind fun _ =>
        (FaultsTyping.lift (agree_faultsIn _ _ _ _)).bind fun _ =>
          (declare_faultsTyping _ _ _).bind fun _ => .pure _
  | .assign name value span => by
    refine .get_bind fun session => ?_
    cases session.scope.find? name with
    | none => exact .throw rfl
    | some type =>
      exact (value.typeFor_faultsTyping (some type)).bind fun _ =>
        (FaultsTyping.lift (agree_faultsIn _ _ _ _)).bind fun _ => .pure _
  | .branch condition yes no _ =>
    (condition.typeFor_faultsTyping (some Ty.bool)).bind fun _ =>
      (FaultsTyping.lift (agree_faultsIn _ _ _ _)).bind fun _ =>
        (FaultsTyping.inFrame yes.check_faultsTyping).bind fun _ =>
          (FaultsTyping.inFrame no.check_faultsTyping).bind fun _ => .pure _
  | .loop condition body _ =>
    (condition.typeFor_faultsTyping (some Ty.bool)).bind fun _ =>
      (FaultsTyping.lift (agree_faultsIn _ _ _ _)).bind fun _ => .inFrame body.check_faultsTyping
  | .returnValue value _ | .expression value _ =>
    (value.typeFor_faultsTyping none).bind fun _ => .pure _
  | .returnVoid _ => .pure _

/-- Checking statements finds faults of typing only. -/
theorem Stmt.checkAll_faultsTyping : ∀ stmts : List (Stmt P), (Stmt.checkAll stmts).FaultsTyping
  | [] => .pure _
  | stmt :: rest =>
    stmt.check_faultsTyping.bind fun _ =>
      (Stmt.checkAll_faultsTyping rest).bind fun _ => .pure _

/-- Checking a block finds faults of typing only. -/
theorem Block.check_faultsTyping : ∀ block : Block P, block.check.FaultsTyping
  | .mk stmts _ =>
    (Stmt.checkAll_faultsTyping stmts).bind fun _ => .lift (singleReturn_faultsIn _ _)

end

/-- A program is refused, in any session, for a fault of typing. -/
theorem Session.run_faultsIn (session : Session) (program : Block P) :
    (session.run program).2.FaultsIn (· = .typing) := program.check_faultsTyping session

end LetWhile
