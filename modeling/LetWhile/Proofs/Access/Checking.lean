import LetWhile.Proofs.Access.Basic
import LetWhile.Proofs.Typing.Adequacy

/-!
# Checking with a stack of frames

A checker that keeps its frames in a stack finds the innermost one at the last index, and the two
operands of a comparison at the first two indices. There is always a last frame, since a frame is
dropped only where one was added, and the operands are there since they were counted before
(`Indexed.Stacked.checkProgram_gives`).
-/

namespace LetWhile

namespace Indexed
variable {P α β : Type}

/-! ## Steps -/

/-- What a checker remembers: an operator table, and the frames from the outermost inwards. -/
structure Stack where
  operators : OperatorTable
  frames : List Frame

namespace Stack

/-- The stack of a session. -/
def of (session : Session) : Stack := ⟨session.operators, session.scope.frames.reverse⟩

/-- The stack of a session has its frames, the innermost last. -/
theorem frames_of (session : Session) :
    (of session).frames = session.scope.outer.reverse ++ [session.scope.inner] :=
  List.reverse_cons

/-- The type of a name, searched for from the innermost frame outwards. -/
def find? (stack : Stack) (name : String) : Option Ty :=
  stack.frames.reverse.findSome? (List.lookup name)

/-- A name is looked up in the stack as it is in the session. -/
theorem find?_of (session : Session) (name : String) :
    (of session).find? name = session.scope.find? name := by
  rw [find?, of, List.reverse_reverse]
  rfl

end Stack

/-- A checking step with a stack, which goes out of range if it comes to `none`. -/
abbrev Stacked (P α : Type) := ExceptT (Fault P) (StateT Stack Option) α

namespace Stacked

/-- What a step yields with a stack, and the stack that it leaves. -/
def run (step : Stacked P α) (stack : Stack) : Option (Outcome P α × Stack) :=
  StateT.run (ExceptT.run step) stack

/-- An access, which must be in range. -/
def access (found : Option α) : Stacked P α := fun stack => found.map fun a => (.ok a, stack)

/-- The innermost frame. -/
def innermost : Stacked P Frame := do
  let stack ← get
  access (lastElement stack.frames)

/-- Declares a name in the innermost frame. -/
def declare (name : String) (type : Ty) (pos : P) : Stacked P Unit := do
  let stack ← get
  let frame ← innermost
  if (frame.lookup name).isSome then throw ⟨.alreadyDeclared name, pos⟩
  else set (Stack.mk stack.operators (stack.frames.dropLast ++ [(name, type) :: frame]))

/-- Runs a step with a new frame on the stack, which is dropped afterwards also when the step
fails. -/
def inFrame (step : Stacked P α) : Stacked P α := fun stack =>
  (step.run ⟨stack.operators, stack.frames ++ [[]]⟩).map fun (result, after) =>
    (result, ⟨after.operators, after.frames.dropLast⟩)

/-! ## Parts -/

/-- The number of arguments must be the expected one. -/
def checkCount (expected : Nat) (args : List (Expr P)) (span : Span P) : Stacked P Unit :=
  if expected < args.length then do
    let extra ← access (element args expected)
    throw ⟨.unexpectedArguments expected args.length, extra.span.start⟩
  else if args.length < expected then
    throw ⟨.missingArguments expected args.length, span.stop⟩
  else pure ⟨⟩

/-- Declares the parameters of a function in the innermost frame. -/
def bindParams (pos : P) : List String → List Ty → Stacked P Unit
  | name :: names, type :: types => do
    declare name type pos
    bindParams pos names types
  | _, _ => pure ⟨⟩

/-- The second of two arguments must have the type that is inferred for the first. `typers` are the
steps that type the arguments. -/
def checkEqual (args : List (Expr P)) (typers : List (Option Ty → Stacked P Ty)) :
    Stacked P Unit := do
  let left ← access (element typers 0)
  let type ← left none
  let right ← access (element typers 1)
  let second ← access (element args 1)
  let received ← right (some type)
  agree .argument type received second.span.start
  pure ⟨⟩

/-! ## Expressions and statements -/

mutual

/-- The type of an expression. -/
def typeFor (wanted : Option Ty) : Expr P → Stacked P Ty
  | .boolean _ _ => pure Ty.bool
  | .number _ _ => pure Ty.int
  | .string _ _ => pure Ty.string
  | .symbol name span => do
    match (← get).find? name with
    | some type => pure type
    | none => throw ⟨.notDeclared name, span.start⟩
  | .operation op args span => do
    match (← get).operators op with
    | none => throw ⟨.notDeclared op.name, span.start⟩
    | some .equality =>
      checkCount 2 args span
      checkEqual args (typersOf args)
      pure Ty.bool
    | some (.fixed params result) =>
      checkCount params.length args span
      checkArgs args params
      pure result
  | .call callee args span => do
    match ← typeFor none callee with
    | .function params result =>
      checkCount params.length args span
      checkArgs args params
      pure result
    | type => throw ⟨.notCallable type, callee.span.start⟩
  | .function params body span =>
    match wanted with
    | none => throw ⟨.functionNotInferred, span.start⟩
    | some (.function types result) =>
      if types.length ≠ params.length then
        throw ⟨.parameterCount types.length params.length, span.start⟩
      else do
        let returned ← inFrame do
          bindParams span.start params types
          checkBlock body
        checkResult body.span.start result returned
        pure (.function types result)
    | some type => throw ⟨.notFunctionType type params.length, span.start⟩

/-- The steps that type the arguments of a list. -/
def typersOf : List (Expr P) → List (Option Ty → Stacked P Ty)
  | [] => []
  | arg :: args => (fun wanted => typeFor wanted arg) :: typersOf args

/-- Arguments must have the types of their parameters, of which there are as many. -/
def checkArgs : List (Expr P) → List Ty → Stacked P Unit
  | arg :: args, param :: params => do
    let received ← typeFor (some param) arg
    agree .argument param received arg.span.start
    checkArgs args params
  | _, _ => pure ⟨⟩

/-- A statement must be well typed. The result lists the types that it may return. -/
def checkStmt : Stmt P → Stacked P (List Ty)
  | .declare name type value span => do
    let frame ← innermost
    if (frame.lookup name).isSome then throw ⟨.alreadyDeclared name, span.start⟩
    else
      let received ← typeFor (some type) value
      agree .value type received value.span.start
      declare name type span.start
      pure []
  | .assign name value span => do
    match (← get).find? name with
    | none => throw ⟨.notDeclared name, span.start⟩
    | some type =>
      let received ← typeFor (some type) value
      agree .value type received value.span.start
      pure []
  | .branch condition yes no _ => do
    let received ← typeFor (some Ty.bool) condition
    agree .value Ty.bool received condition.span.start
    let yesTypes ← inFrame (checkBlock yes)
    let noTypes ← inFrame (checkBlock no)
    pure (Ty.dedup (yesTypes ++ noTypes))
  | .loop condition body _ => do
    let received ← typeFor (some Ty.bool) condition
    agree .value Ty.bool received condition.span.start
    inFrame (checkBlock body)
  | .returnValue value _ => do
    let type ← typeFor none value
    pure [type]
  | .returnVoid _ => pure [Ty.void]
  | .expression value _ => do
    let _ ← typeFor none value
    pure []

/-- Statements are checked in order. -/
def checkStmts : List (Stmt P) → Stacked P (List Ty)
  | [] => pure []
  | stmt :: rest => do
    let types ← checkStmt stmt
    let more ← checkStmts rest
    pure (types ++ more)

/-- A block must be well typed. The result lists the type that it may return. -/
def checkBlock : Block P → Stacked P (List Ty)
  | .mk stmts span => do
    let types ← checkStmts stmts
    singleReturn span.start types

end

/-! ## Steps that stay in range -/

/-- A step with a stack stays in range, and does what another step does with a session. -/
def Gives (indexed : Stacked P α) (step : Checking P α) : Prop :=
  ∀ session, indexed.run (Stack.of session) =
    some ((step.run session).1, Stack.of (step.run session).2)

section
variable {indexed : Stacked P α} {step : Checking P α}

/-- Two steps run one after another on the stack that the first one leaves. -/
theorem run_bind (indexed : Stacked P α) (next : α → Stacked P β) (stack : Stack) :
    (indexed >>= next).run stack = (indexed.run stack).bind fun found =>
      match found.1 with
      | .ok a => (next a).run found.2
      | .error fault => some (.error fault, found.2) := by
  show (ExceptT.bind indexed next).run stack = _
  unfold run
  simp only [ExceptT.bind, ExceptT.run, ExceptT.mk, StateT.run, bind, StateT.bind]
  rcases indexed stack with _ | ⟨_ | a, after⟩ <;> rfl

/-- A value is in range. -/
theorem Gives.pure (a : α) : Gives (P := P) (pure a) (pure a) := fun _ => rfl

/-- A fault is in range. -/
theorem Gives.throw (fault : Fault P) : Gives (α := α) (throw fault) (throw fault) := fun _ => rfl

/-- An outcome is in range as a step. -/
theorem Gives.lift (outcome : Outcome P α) :
    Gives (liftM outcome : Stacked P α) (liftM outcome : Checking P α) := by
  cases outcome <;> exact fun _ => rfl

/-- Steps that stay in range do so one after another. -/
theorem Gives.bind {next : α → Stacked P β} {next' : α → Checking P β} (h : indexed.Gives step)
    (hn : ∀ a, (next a).Gives (next' a)) : Gives (indexed >>= next) (step >>= next') := by
  intro session
  rw [run_bind, Checking.run_bind, h session, Option.bind_some]
  rcases step.run session with ⟨_ | a, after⟩
  · rfl
  · exact hn a after

/-- What follows a step that changes nothing may rest on what it yields. -/
theorem Gives.bind_lift {outcome : Outcome P α} {next : α → Stacked P β}
    {next' : α → Checking P β} (h : indexed.Gives (liftM outcome))
    (hn : ∀ a, outcome = .ok a → (next a).Gives (next' a)) :
    Gives (indexed >>= next) (liftM outcome >>= next') := by
  intro session
  rw [run_bind, Checking.run_bind, h session, Option.bind_some, Checking.run_lift]
  cases outcome with
  | error fault => rfl
  | ok a => exact hn a rfl session

/-- A step that reads the stack stays in range if it does for the stack of every session. -/
theorem Gives.get_bind {next : Stack → Stacked P β} {next' : Session → Checking P β}
    (hn : ∀ session, (next (Stack.of session)).Gives (next' session)) :
    Gives (get >>= next) (get >>= next') := fun session => hn session session

/-- An access in range is made, and changes nothing. -/
theorem Gives.access_bind {found : Option β} {b : β} {next : β → Stacked P α}
    (h : found = some b) (hn : (next b).Gives step) : Gives (access found >>= next) step := by
  subst h
  exact hn

/-- There is always an innermost frame. -/
theorem innermost_bind_run (next : Frame → Stacked P β) (session : Session) :
    (innermost >>= next).run (Stack.of session) =
      (next session.scope.inner).run (Stack.of session) := by
  have hinnermost : (innermost (P := P)).run (Stack.of session) =
      some (.ok session.scope.inner, Stack.of session) := by
    show (access (lastElement (Stack.of session).frames)).run (Stack.of session) = _
    rw [Stack.frames_of, lastElement_append]
    rfl
  rw [run_bind, hinnermost]
  rfl

/-- The innermost frame exists: a session has one. -/
theorem Gives.innermost_bind {next : Frame → Stacked P β} {next' : Session → Checking P β}
    (hn : ∀ session, (next session.scope.inner).Gives (next' session)) :
    Gives (innermost >>= next) (get >>= next') := by
  intro session
  rw [innermost_bind_run]
  exact hn session session

/-- A name is declared in the innermost frame. -/
theorem declare_gives (name : String) (type : Ty) (pos : P) :
    (declare name type pos).Gives (Checking.declare name type pos) := by
  intro session
  show (innermost >>= fun frame => _).run (Stack.of session) = _
  rw [innermost_bind_run, Checking.run_declare, Scope.declares]
  split
  · rfl
  · rw [Stack.frames_of, List.dropLast_concat, ← List.reverse_cons]
    rfl

/-- The frame that is dropped after a step is the one that was added before it. -/
theorem Gives.inFrame (h : indexed.Gives step) (hk : step.KeepsOuter) :
    (inFrame indexed).Gives (Checking.inFrame step) := by
  intro session
  have henter : Stack.of session.enter =
      ⟨session.operators, (Stack.of session).frames ++ [[]]⟩ := by
    simp only [Stack.of, Session.enter, Scope.enter, Scope.frames, List.reverse_cons]
  have hleave (after : Session) (houter : after.scope.outer = session.scope.frames) :
      Stack.of after.leave = ⟨after.operators, (Stack.of after).frames.dropLast⟩ := by
    rw [Stack.frames_of, List.dropLast_concat, houter]
    simp only [Stack.of, Session.leave, Scope.leave, houter, Scope.frames]
  have hrun := h session.enter
  rw [henter] at hrun
  rw [Checking.run_inFrame, hleave _ (hk session.enter).2]
  show (indexed.run ⟨session.operators, (Stack.of session).frames ++ [[]]⟩).map _ = _
  rw [hrun]
  rfl

end

/-! ## Parts stay in range -/

/-- A wrong number of arguments is reported without going out of range: the first one too many
exists. -/
theorem checkCount_gives (expected : Nat) (args : List (Expr P)) (span : Span P) :
    (checkCount expected args span).Gives (liftM (LetWhile.checkCount expected args span)) := by
  unfold checkCount LetWhile.checkCount
  by_cases hmore : expected < args.length
  · rw [if_pos hmore, List.getElem?_eq_getElem hmore]
    exact .access_bind (List.getElem?_eq_getElem hmore) (.throw _)
  · rw [if_neg hmore, List.getElem?_eq_none (Nat.le_of_not_lt hmore)]
    simp only
    split
    · exact .throw _
    · exact .pure _

/-- Parameters are bound in the innermost frame, one by one. -/
theorem bindParams_gives (pos : P) : ∀ (names : List String) (types : List Ty),
    (bindParams pos names types).Gives (LetWhile.bindParams pos names types)
  | [], _ | _ :: _, [] => .pure _
  | name :: names, type :: types =>
    (declare_gives name type pos).bind fun _ => bindParams_gives pos names types

/-- Steps stay in range and type the arguments of a list, one by one. -/
def Types (typers : List (Option Ty → Stacked P Ty)) (args : List (Expr P)) : Prop :=
  List.Forall₂ (fun typer arg => ∀ wanted, (typer wanted).Gives (arg.typeFor wanted)) typers args

/-- Two arguments can be compared, since both are there. -/
theorem checkEqual_gives {args : List (Expr P)} {typers : List (Option Ty → Stacked P Ty)}
    (h : Types typers args) (hlength : args.length = 2) :
    (checkEqual args typers).Gives (Expr.checkEqual args) := by
  obtain ⟨left, right, rfl⟩ := List.length_eq_two.1 hlength
  cases h with
  | cons hleft h =>
    cases h with
    | cons hright h =>
      cases h
      refine .access_bind rfl ((hleft none).bind fun type => ?_)
      refine .access_bind rfl (.access_bind rfl ((hright (some type)).bind fun received => ?_))
      exact (Gives.lift _).bind fun _ => .pure _

/-! ## Checking stays in range -/

-- The induction is on the syntax, along the recursion of the checker.
mutual

/-- An expression is typed in range. In an equality both operands exist once their number is
checked. -/
theorem typeFor_gives (wanted : Option Ty) : ∀ expr : Expr P,
    (typeFor wanted expr).Gives (expr.typeFor wanted)
  | .boolean .. | .number .. | .string .. => .pure _
  | .symbol name span => by
    refine .get_bind fun session => ?_
    rw [Stack.find?_of]
    cases session.scope.find? name with
    | some type => exact .pure type
    | none => exact .throw _
  | .operation op args span => by
    refine .get_bind fun session => ?_
    simp only [Stack.of]
    cases session.operators op with
    | none => exact .throw _
    | some opType =>
      cases opType with
      | equality =>
        refine .bind_lift (checkCount_gives 2 args span) fun _ hcount => ?_
        exact (checkEqual_gives (typersOf_types args) (checkCount_ok_iff.1 hcount)).bind
          fun _ => .pure _
      | fixed params result =>
        exact (checkCount_gives _ args span).bind fun _ =>
          (checkArgs_gives args params).bind fun _ => .pure _
  | .call callee args span => by
    refine (typeFor_gives none callee).bind fun type => ?_
    cases type with
    | name => exact .throw _
    | function params result =>
      exact (checkCount_gives _ args span).bind fun _ =>
        (checkArgs_gives args params).bind fun _ => .pure _
  | .function params body span => by
    unfold typeFor Expr.typeFor
    cases wanted with
    | none => exact .throw _
    | some type =>
      cases type with
      | name => exact .throw _
      | function types result =>
        simp only
        split
        · exact .throw _
        · have hbody := (bindParams_gives span.start params types).bind fun _ =>
            checkBlock_gives body
          refine Gives.bind (hbody.inFrame ?_) fun returned => ?_
          · exact (bindParams_keepsOuter span.start params types).bind fun _ =>
              body.check_keepsOuter
          · exact (Gives.lift _).bind fun _ => .pure _

/-- The steps that type arguments type them, one by one. -/
theorem typersOf_types : ∀ args : List (Expr P), Types (typersOf args) args
  | [] => .nil
  | arg :: args => .cons (fun wanted => typeFor_gives wanted arg) (typersOf_types args)

/-- Arguments are checked in range against their parameters. -/
theorem checkArgs_gives : ∀ (args : List (Expr P)) (params : List Ty),
    (checkArgs args params).Gives (Expr.checkArgs args params)
  | [], _ | _ :: _, [] => .pure _
  | arg :: args, param :: params =>
    (typeFor_gives (some param) arg).bind fun _ => (Gives.lift _).bind fun _ =>
      checkArgs_gives args params

/-- A statement is checked in range. -/
theorem checkStmt_gives : ∀ stmt : Stmt P, (checkStmt stmt).Gives stmt.check
  | .declare name type value span => by
    refine .innermost_bind fun session => ?_
    rw [Scope.declares]
    split
    · exact .throw _
    · exact (typeFor_gives (some type) value).bind fun _ => (Gives.lift _).bind fun _ =>
        (declare_gives name type span.start).bind fun _ => .pure _
  | .assign name value span => by
    refine .get_bind fun session => ?_
    rw [Stack.find?_of]
    cases session.scope.find? name with
    | none => exact .throw _
    | some type =>
      exact (typeFor_gives (some type) value).bind fun _ => (Gives.lift _).bind fun _ => .pure _
  | .branch condition yes no span =>
    (typeFor_gives (some Ty.bool) condition).bind fun _ => (Gives.lift _).bind fun _ =>
      ((checkBlock_gives yes).inFrame yes.check_keepsOuter).bind fun _ =>
        ((checkBlock_gives no).inFrame no.check_keepsOuter).bind fun _ => .pure _
  | .loop condition body span =>
    (typeFor_gives (some Ty.bool) condition).bind fun _ => (Gives.lift _).bind fun _ =>
      (checkBlock_gives body).inFrame body.check_keepsOuter
  | .returnValue value _ | .expression value _ =>
    (typeFor_gives none value).bind fun _ => .pure _
  | .returnVoid _ => .pure _

/-- Statements are checked in range one after another. -/
theorem checkStmts_gives : ∀ stmts : List (Stmt P), (checkStmts stmts).Gives (Stmt.checkAll stmts)
  | [] => .pure _
  | stmt :: rest =>
    (checkStmt_gives stmt).bind fun _ => (checkStmts_gives rest).bind fun _ => .pure _

/-- A block is checked without going out of range. -/
theorem checkBlock_gives : ∀ block : Block P, (checkBlock block).Gives block.check
  | .mk stmts _ => (checkStmts_gives stmts).bind fun _ => .lift _

end

/-- Checks a program, and looks at the innermost frame once more. -/
def checkProgram (program : Block P) : Stacked P (List Ty) := do
  let types ← checkBlock program
  let _ ← innermost
  pure types

/-- A program is checked without going out of range. -/
theorem checkProgram_gives (program : Block P) : (checkProgram program).Gives program.check := by
  intro session
  unfold checkProgram
  rw [run_bind, checkBlock_gives program session, Option.bind_some]
  rcases program.check.run session with ⟨_ | types, after⟩
  · rfl
  · exact innermost_bind_run (fun _ => pure types) after

end Stacked

end Indexed

end LetWhile
