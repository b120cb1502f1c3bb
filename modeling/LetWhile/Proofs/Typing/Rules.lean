import LetWhile.Program.Basic
import LetWhile.Typing.OperatorTable
import Mathlib.Logic.Function.Basic

/-!
# Typing rules

The typing rules of the language, in contexts that no rule changes. `Infers` says which type an
expression has on its own, and `Checks` which types it can be used at; the two differ on function
literals only. A statement, a list of statements and a block are typed with the list of their
returns: the types of their `return` statements in the order of the text, those of nested branches
and loops included and those of function literals left out, each in its own scope. A block is typed
if all its returns agree.
-/

namespace LetWhile

namespace Typing

/-! ## Contexts -/

/-- What the names of one block mean. -/
abbrev Bindings := String → Option Ty

/-- The names of a block, and those of the blocks around it from the inside outwards. -/
structure Context where
  inner : Bindings
  outer : List Bindings

/-- The bindings of parameters and nothing else. -/
def Bindings.ofParams (params : List String) (types : List Ty) : Bindings :=
  fun name => (params.zip types).lookup name

namespace Context
variable {P : Type}

/-- The bindings of all blocks, from the inside outwards. -/
def frames (Γ : Context) : List Bindings := Γ.inner :: Γ.outer

/-- The context of a block that begins with the given bindings. -/
def enter (Γ : Context) (bindings : Bindings) : Context := ⟨bindings, Γ.frames⟩

/-- The context with one more name in the innermost block. -/
def declare (Γ : Context) (name : String) (type : Ty) : Context :=
  ⟨Function.update Γ.inner name (some type), Γ.outer⟩

/-- The context of what follows a statement. -/
def after (Γ : Context) : Stmt P → Context
  | .declare name type _ _ => Γ.declare name type
  | _ => Γ

end Context

/-- A name has the type that the nearest block which binds it gives it. -/
inductive Binds : List Bindings → String → Ty → Prop
  | here {frame : Bindings} {outer : List Bindings} {name : String} {type : Ty} :
    frame name = some type → Binds (frame :: outer) name type
  | there {frame : Bindings} {outer : List Bindings} {name : String} {type : Ty} :
    frame name = none → Binds outer name type → Binds (frame :: outer) name type

/-! ## Rules -/

variable {P : Type}

mutual

/-- An expression has a type on its own. There is no rule for function literals. -/
inductive Infers : Context → Expr P → Ty → Prop
  | boolean {Γ : Context} {value : Bool} {span : Span P} : Infers Γ (.boolean value span) Ty.bool
  | number {Γ : Context} {value : Int} {span : Span P} : Infers Γ (.number value span) Ty.int
  | string {Γ : Context} {value : String} {span : Span P} : Infers Γ (.string value span) Ty.string
  | symbol {Γ : Context} {name : String} {type : Ty} {span : Span P} :
    Binds Γ.frames name type → Infers Γ (.symbol name span) type
  | operation {Γ : Context} {op : Operator} {params : List Ty} {result : Ty}
      {args : List (Expr P)} {span : Span P} :
    OperatorTable.builtin op = some (.fixed params result) → ChecksAll Γ args params →
    Infers Γ (.operation op args span) result
  | equality {Γ : Context} {op : Operator} {left right : Expr P} {type : Ty} {span : Span P} :
    OperatorTable.builtin op = some .equality → Infers Γ left type → Checks Γ right type →
    Infers Γ (.operation op [left, right] span) Ty.bool
  | call {Γ : Context} {callee : Expr P} {params : List Ty} {result : Ty} {args : List (Expr P)}
      {span : Span P} :
    Infers Γ callee (.function params result) → ChecksAll Γ args params →
    Infers Γ (.call callee args span) result

/-- An expression can be used at a type. -/
inductive Checks : Context → Expr P → Ty → Prop
  | inferred {Γ : Context} {expr : Expr P} {type : Ty} : Infers Γ expr type → Checks Γ expr type
  | function {Γ : Context} {params : List String} {types : List Ty} {body : Block P}
      {returns : List Ty} {result : Ty} {span : Span P} :
    params.Nodup → params.length = types.length →
    BlockTyped (Γ.enter (.ofParams params types)) body returns → (∀ type ∈ returns, type = result) →
    Checks Γ (.function params body span) (.function types result)

/-- Arguments can be used at the types of as many parameters. -/
inductive ChecksAll : Context → List (Expr P) → List Ty → Prop
  | nil {Γ : Context} : ChecksAll Γ [] []
  | cons {Γ : Context} {arg : Expr P} {param : Ty} {args : List (Expr P)} {params : List Ty} :
    Checks Γ arg param → ChecksAll Γ args params → ChecksAll Γ (arg :: args) (param :: params)

/-- A statement is well typed, with the given returns. -/
inductive StmtTyped : Context → Stmt P → List Ty → Prop
  | declare {Γ : Context} {name : String} {type : Ty} {value : Expr P} {span : Span P} :
    Γ.inner name = none → Checks Γ value type → StmtTyped Γ (.declare name type value span) []
  | assign {Γ : Context} {name : String} {type : Ty} {value : Expr P} {span : Span P} :
    Binds Γ.frames name type → Checks Γ value type → StmtTyped Γ (.assign name value span) []
  | branch {Γ : Context} {condition : Expr P} {yes no : Block P} {yesReturns noReturns : List Ty}
      {span : Span P} :
    Checks Γ condition Ty.bool → BlockTyped (Γ.enter fun _ => none) yes yesReturns →
    BlockTyped (Γ.enter fun _ => none) no noReturns →
    StmtTyped Γ (.branch condition yes no span) (yesReturns ++ noReturns)
  | loop {Γ : Context} {condition : Expr P} {body : Block P} {returns : List Ty} {span : Span P} :
    Checks Γ condition Ty.bool → BlockTyped (Γ.enter fun _ => none) body returns →
    StmtTyped Γ (.loop condition body span) returns
  | returnValue {Γ : Context} {value : Expr P} {type : Ty} {span : Span P} :
    Infers Γ value type → StmtTyped Γ (.returnValue value span) [type]
  | returnVoid {Γ : Context} {span : Span P} : StmtTyped Γ (.returnVoid span) [Ty.void]
  | expression {Γ : Context} {value : Expr P} {type : Ty} {span : Span P} :
    Infers Γ value type → StmtTyped Γ (.expression value span) []

/-- Statements are well typed in order, each in the context after the ones before it. -/
inductive StmtsTyped : Context → List (Stmt P) → List Ty → Prop
  | nil {Γ : Context} : StmtsTyped Γ [] []
  | cons {Γ : Context} {stmt : Stmt P} {rest : List (Stmt P)} {returns more : List Ty} :
    StmtTyped Γ stmt returns → StmtsTyped (Γ.after stmt) rest more →
    StmtsTyped Γ (stmt :: rest) (returns ++ more)

/-- A block is well typed, with the given returns: they are all the same type. -/
inductive BlockTyped : Context → Block P → List Ty → Prop
  | block {Γ : Context} {stmts : List (Stmt P)} {returns : List Ty} {span : Span P} :
    StmtsTyped Γ stmts returns → (∀ a ∈ returns, ∀ b ∈ returns, a = b) →
    BlockTyped Γ (.mk stmts span) returns

end

/-- A program is well typed in a context. -/
def Derivable (Γ : Context) (program : Block P) : Prop := ∃ returns, BlockTyped Γ program returns

end Typing

end LetWhile
