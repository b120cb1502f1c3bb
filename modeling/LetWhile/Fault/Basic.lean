import LetWhile.Ty.Basic

/-!
# Faults

What can be wrong with a program, and where. A `Cause` is one thing that can be wrong, each belongs
to one `Stage` of reading, and a `Fault` is a cause at a position.
-/

namespace LetWhile

/-- Where in the reading of a program a fault is found. Nesting too deep is found at several stages
and counts as one of its own. -/
inductive Stage
  | scanning
  | nesting
  | outlining
  | expressions
  | types
  | typing
  | depth
deriving DecidableEq

/-- One thing that can be wrong with a program. -/
inductive Cause
  | unrecognisedToken (text : String)
  | mismatchedBracket (expected found : String)
  | unclosedBracket (bracket : String)
  | unexpectedToken (token message : String)
  | missingSemicolon
  | invalidTarget (token : String)
  | emptyExpression
  | unrecognisedExpression (expression : String)
  | invalidNumber (token : String)
  | unknownOperator (operator : String)
  | invalidParameters (token : String)
  | invalidType (signature : String)
  | alreadyDeclared (name : String)
  | notDeclared (name : String)
  | unexpectedArguments (expected received : Nat)
  | missingArguments (expected received : Nat)
  | argumentMismatch (expected received : Ty)
  | typeMismatch (expected received : Ty)
  | notFunctionType (expected : Ty) (params : Nat)
  | notCallable (type : Ty)
  | functionNotInferred
  | parameterCount (expected received : Nat)
  | severalReturnTypes (types : List Ty)
  | returnMismatch (expected received : Ty)
  | nestingTooDeep (limit : Nat)
deriving DecidableEq

/-- The stage that finds a fault of this cause. -/
def Cause.stage : Cause → Stage
  | unrecognisedToken .. => .scanning
  | mismatchedBracket .. | unclosedBracket .. => .nesting
  | unexpectedToken .. | missingSemicolon | invalidTarget .. => .outlining
  | emptyExpression | unrecognisedExpression .. | invalidNumber .. | unknownOperator ..
  | invalidParameters .. => .expressions
  | invalidType .. => .types
  | alreadyDeclared .. | notDeclared .. | unexpectedArguments .. | missingArguments ..
  | argumentMismatch .. | typeMismatch .. | notFunctionType .. | notCallable ..
  | functionNotInferred | parameterCount .. | severalReturnTypes .. | returnMismatch .. => .typing
  | nestingTooDeep .. => .depth

/-- Something wrong at a position. -/
structure Fault (P : Type) where
  cause : Cause
  pos : P
deriving DecidableEq

/-- A fault at another position. -/
def Fault.map {P Q : Type} (f : P → Q) (fault : Fault P) : Fault Q := ⟨fault.cause, f fault.pos⟩

/-- A result, or the first fault that prevents it. -/
abbrev Outcome (P α : Type) := Except (Fault P) α

theorem Outcome.bind_eq_ok {P α β : Type} {x : Outcome P α} {f : α → Outcome P β} {b : β} :
    (x >>= f) = .ok b ↔ ∃ a, x = .ok a ∧ f a = .ok b := by
  cases x with
  | error => exact ⟨nofun, nofun⟩
  | ok a => exact ⟨fun h => ⟨a, rfl, h⟩, fun ⟨_, rfl, h⟩ => h⟩

theorem Outcome.map_eq_ok {P α β : Type} {x : Outcome P α} {f : α → β} {b : β} :
    x.map f = .ok b ↔ ∃ a, x = .ok a ∧ f a = b := by
  cases x with
  | error => exact ⟨nofun, nofun⟩
  | ok a => exact ⟨fun h => ⟨a, rfl, Except.ok.inj h⟩, fun ⟨_, rfl, h⟩ => congrArg _ h⟩

/-- An outcome with the positions of its fault and of its result moved. -/
def Outcome.relocate {P Q α β : Type} (f : P → Q) (g : α → β) : Outcome P α → Outcome Q β
  | .ok a => .ok (g a)
  | .error fault => .error (fault.map f)

end LetWhile
