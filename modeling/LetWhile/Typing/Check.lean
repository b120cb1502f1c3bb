import LetWhile.Program.Basic
import LetWhile.Typing.Session

/-!
# Type checking

The type of an expression is inferred from its parts; only a function literal has to be checked
against a type, since its parameters have none of their own. A block is checked statement by
statement, each declaration adding its name to the innermost frame, and yields the types that it may
return, of which there may be one. Branches, loops and function literals have a frame of their own.
-/

namespace LetWhile

variable {P : Type}

/-! ## Parts -/

/-- What a checked expression is used as, which decides how a mismatch is reported. -/
inductive Use
  | value
  | argument
deriving DecidableEq

/-- The cause reported when an expression has another type than its use asks for. -/
def Use.mismatch : Use → Ty → Ty → Cause
  | value, expected, received => .typeMismatch expected received
  | argument, expected, received => .argumentMismatch expected received

/-- The number of arguments must be the expected one. The first argument too many is reported where
it stands, one too few at the end of the call. -/
def checkCount (expected : Nat) (args : List (Expr P)) (span : Span P) : Outcome P Unit :=
  match args[expected]? with
  | some extra => .error ⟨.unexpectedArguments expected args.length, extra.span.start⟩
  | none =>
    if args.length < expected then .error ⟨.missingArguments expected args.length, span.stop⟩
    else .ok ()

/-- Declares the parameters of a function in the innermost frame. -/
def bindParams (pos : P) : List String → List Ty → Checking P Unit
  | name :: names, type :: types => do
    Checking.declare name type pos
    bindParams pos names types
  | _, _ => pure ()

/-- The distinct ones among the types that a block returns, of which there may be one. -/
def singleReturn (pos : P) (types : List Ty) : Outcome P (List Ty) :=
  match Ty.dedup types with
  | first :: second :: more => .error ⟨.severalReturnTypes (first :: second :: more), pos⟩
  | distinct => .ok distinct

/-- What a function literal returns must be what its type says. -/
def checkResult (pos : P) (expected : Ty) : List Ty → Outcome P Unit
  | [] => .ok ()
  | returned :: _ =>
    if returned = expected then .ok () else .error ⟨.returnMismatch expected returned, pos⟩

/-- An expression of the type `received` can be used where `expected` is asked for. -/
def agree (use : Use) (expected received : Ty) (pos : P) : Outcome P Unit :=
  if received = expected then .ok () else .error ⟨use.mismatch expected received, pos⟩

/-! ## Expressions and statements -/

mutual

/-- The type of an expression. Only a function literal looks at the type that is wanted, and has it
if it fits. -/
def Expr.typeFor (wanted : Option Ty) : Expr P → Checking P Ty
  | .boolean _ _ => pure Ty.bool
  | .number _ _ => pure Ty.int
  | .string _ _ => pure Ty.string
  | .symbol name span => do
    match (← get).scope.find? name with
    | some type => pure type
    | none => throw ⟨.notDeclared name, span.start⟩
  | .operation op args span => do
    match (← get).operators op with
    | none => throw ⟨.notDeclared op.name, span.start⟩
    | some .equality =>
      checkCount 2 args span
      Expr.checkEqual args
      pure Ty.bool
    | some (.fixed params result) =>
      checkCount params.length args span
      Expr.checkArgs args params
      pure result
  | .call callee args span => do
    match ← callee.typeFor none with
    | .function params result =>
      checkCount params.length args span
      Expr.checkArgs args params
      pure result
    | type => throw ⟨.notCallable type, callee.span.start⟩
  | .function params body span =>
    match wanted with
    | none => throw ⟨.functionNotInferred, span.start⟩
    | some (.function types result) =>
      if types.length ≠ params.length then
        throw ⟨.parameterCount types.length params.length, span.start⟩
      else do
        let returned ← Checking.inFrame do
          bindParams span.start params types
          body.check
        checkResult body.span.start result returned
        pure (.function types result)
    | some type => throw ⟨.notFunctionType type params.length, span.start⟩

/-- Arguments must have the types of their parameters, of which there are as many. -/
def Expr.checkArgs : List (Expr P) → List Ty → Checking P Unit
  | arg :: args, param :: params => do
    let received ← arg.typeFor (some param)
    agree .argument param received arg.span.start
    Expr.checkArgs args params
  | _, _ => pure ()

/-- The second of two arguments must have the type that is inferred for the first. -/
def Expr.checkEqual : List (Expr P) → Checking P Unit
  | left :: rest => do
    let type ← left.typeFor none
    Expr.checkArgs rest [type]
  | [] => pure ()

/-- A statement must be well typed. The result lists the types that it may return. -/
def Stmt.check : Stmt P → Checking P (List Ty)
  | .declare name type value span => do
    if (← get).scope.declares name then throw ⟨.alreadyDeclared name, span.start⟩
    else
      let received ← value.typeFor (some type)
      agree .value type received value.span.start
      Checking.declare name type span.start
      pure []
  | .assign name value span => do
    match (← get).scope.find? name with
    | none => throw ⟨.notDeclared name, span.start⟩
    | some type =>
      let received ← value.typeFor (some type)
      agree .value type received value.span.start
      pure []
  | .branch condition yes no _ => do
    let received ← condition.typeFor (some Ty.bool)
    agree .value Ty.bool received condition.span.start
    let yesTypes ← Checking.inFrame yes.check
    let noTypes ← Checking.inFrame no.check
    pure (Ty.dedup (yesTypes ++ noTypes))
  | .loop condition body _ => do
    let received ← condition.typeFor (some Ty.bool)
    agree .value Ty.bool received condition.span.start
    Checking.inFrame body.check
  | .returnValue value _ => do
    let type ← value.typeFor none
    pure [type]
  | .returnVoid _ => pure [Ty.void]
  | .expression value _ => do
    let _ ← value.typeFor none
    pure []

/-- Statements are checked in order, each in the session that the ones before it leave. -/
def Stmt.checkAll : List (Stmt P) → Checking P (List Ty)
  | [] => pure []
  | stmt :: rest => do
    let types ← stmt.check
    let more ← Stmt.checkAll rest
    pure (types ++ more)

/-- A block, whose statements declare their names in the innermost frame, must be well typed. The
result lists the type that it may return. -/
def Block.check : Block P → Checking P (List Ty)
  | .mk stmts span => do
    let types ← Stmt.checkAll stmts
    singleReturn span.start types

end

/-! ## Whole expressions and programs -/

/-- The type of an expression that nothing is known about. -/
def Expr.infer (expr : Expr P) : Checking P Ty := expr.typeFor none

/-- The type of an expression that must be `expected`. -/
def Expr.check (use : Use) (expected : Ty) (expr : Expr P) : Checking P Ty := do
  let received ← expr.typeFor (some expected)
  agree use expected received expr.span.start
  pure received

namespace Session

/-- Checks a program: the types that it returns, and the session afterwards. -/
def run (session : Session) (program : Block P) : Session × Outcome P (List Ty) :=
  let (types, after) := program.check.run session
  (after, types)

/-- Checks statements one by one, going on after faults. -/
def runEach (session : Session) : List (Stmt P) → Session × List (Outcome P (List Ty))
  | [] => (session, [])
  | stmt :: rest =>
    let (types, after) := stmt.check.run session
    let (last, more) := runEach after rest
    (last, types :: more)

/-- The type of an expression. -/
def infer (session : Session) (expr : Expr P) : Outcome P Ty := (expr.infer.run session).1

/-- The type of an expression that must have the type `expected`. -/
def check (session : Session) (expected : Ty) (expr : Expr P) : Outcome P Ty :=
  ((expr.check .value expected).run session).1

end Session

end LetWhile
