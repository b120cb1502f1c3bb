import LetWhile.Proofs.Typing.Visits

/-!
# Free names

A name is free in an expression where a symbol or the target of an assignment mentions it and
nothing inside the expression binds it there: neither a parameter of a function literal around the
place nor a declaration before it in a block around it (`Expr.Free`). Two sessions with the same
operators in which all free names of an expression have the same types type the expression alike,
however their frames are laid out (`Session.typing_eq_of_free`).

Inside a function literal, two sessions that agree on its free names have the same innermost frame
and agree on the free names of the rest of the body (`Session.AgreesInside`). This is what each
statement keeps, and it decides what is declared already as well as what a name means.
-/

namespace LetWhile

open Checking

variable {P : Type}

/-! ## Free names -/

/-- A statement declares a name. -/
def Stmt.Declares (name : String) (stmt : Stmt P) : Prop := ∃ type, stmt.declared? = some (name, type)

mutual

/-- A name is free in an expression. -/
def Expr.Free (name : String) : Expr P → Prop
  | .boolean .. | .number .. | .string .. => False
  | .symbol other _ => other = name
  | .operation _ args _ => Expr.AnyFree name args
  | .call callee args _ => callee.Free name ∨ Expr.AnyFree name args
  | .function params body _ => name ∉ params ∧ body.Free name

/-- A name is free in one of several expressions. -/
def Expr.AnyFree (name : String) : List (Expr P) → Prop
  | [] => False
  | expr :: rest => expr.Free name ∨ Expr.AnyFree name rest

/-- A name is free in a statement. What a declaration declares it does not bind in its own value. -/
def Stmt.Free (name : String) : Stmt P → Prop
  | .declare _ _ value _ | .returnValue value _ | .expression value _ => value.Free name
  | .assign target value _ => target = name ∨ value.Free name
  | .branch condition yes no _ => condition.Free name ∨ yes.Free name ∨ no.Free name
  | .loop condition body _ => condition.Free name ∨ body.Free name
  | .returnVoid _ => False

/-- A name is free in statements that follow one another: in the first of them, or in the others
unless the first declares it. -/
def Stmt.AnyFree (name : String) : List (Stmt P) → Prop
  | [] => False
  | stmt :: rest => stmt.Free name ∨ ¬ stmt.Declares name ∧ Stmt.AnyFree name rest

/-- A name is free in a block. -/
def Block.Free (name : String) : Block P → Prop
  | .mk stmts _ => Stmt.AnyFree name stmts

end

/-! ## What names mean inside -/

/-- A name means what the innermost frame says, and else what it means outside. -/
theorem Scope.find?_eq (scope : Scope) (name : String) : scope.find? name =
    (scope.inner.lookup name).or (scope.outer.findSome? (List.lookup name)) := by
  simp only [find?, frames, List.findSome?_cons]
  cases scope.inner.lookup name with
  | none => rfl
  | some type => rfl

/-- Inside a block a name means what the frame of the block says, and else what it means outside. -/
theorem Scope.find?_enter (scope : Scope) (frame : Frame) (name : String) :
    (scope.enter frame).find? name = (frame.lookup name).or (scope.find? name) :=
  find?_eq _ _

/-- After a declaration of another name a name means what it meant before. -/
theorem Scope.find?_declare_ne (scope : Scope) {name other : String} (type : Ty)
    (h : name ≠ other) : (scope.declare other type).find? name = scope.find? name := by
  rw [find?_eq, find?_eq, declare, List.lookup_cons, beq_eq_false_iff_ne.2 h]

/-- The frame of a function has types for its parameters and for no other names. -/
theorem lookup_params_isSome_iff {params : List String} {types : List Ty}
    (hlen : params.length = types.length) {name : String} :
    ((params.zip types).reverse.lookup name).isSome ↔ name ∈ params := by
  rw [List.lookup_isSome_iff]
  nth_rewrite 2 [← List.map_fst_zip (Nat.le_of_eq hlen)]
  simp only [List.mem_reverse, beq_iff_eq, List.mem_map, eq_comm (a := name)]

/-- After a statement a name that it does not declare means what it meant before. -/
theorem Session.find?_bindAll {stmt : Stmt P} {name : String} (h : ¬ stmt.Declares name)
    (session : Session) :
    (session.bindAll [stmt]).scope.find? name = session.scope.find? name := by
  cases hs : stmt.declared? with
  | none => simp [bindAll, hs]
  | some declared =>
    have hne : name ≠ declared.1 := by
      rintro rfl
      exact h ⟨declared.2, hs⟩
    have hscope : (session.bindAll [stmt]).scope = session.scope.declare declared.1 declared.2 := by
      simp [bindAll, hs, Scope.declare]
    rw [hscope, Scope.find?_declare_ne _ _ hne]

/-! ## Sessions that agree -/

/-- Two sessions have the same operators, and some names have the same types in them. -/
structure Session.Agrees (names : String → Prop) (session other : Session) : Prop where
  operators : session.operators = other.operators
  find? : ∀ name, names name → session.scope.find? name = other.scope.find? name

/-- Two sessions agree on some names, and the innermost frame of both is the same. -/
structure Session.AgreesInside (names : String → Prop) (session other : Session) : Prop
    extends Session.Agrees names session other where
  inner : session.scope.inner = other.scope.inner

namespace Session
variable {names others : String → Prop} {session other : Session}

/-- Sessions that agree on names agree on fewer. -/
theorem Agrees.mono (h : Agrees names session other) (hnames : ∀ name, others name → names name) :
    Agrees others session other :=
  ⟨h.operators, fun name hname => h.find? name (hnames name hname)⟩

/-- Sessions with the same innermost frame that agree on names agree on fewer. -/
theorem AgreesInside.mono (h : AgreesInside names session other)
    (hnames : ∀ name, others name → names name) : AgreesInside others session other :=
  ⟨h.toAgrees.mono hnames, h.inner⟩

/-- Sessions that agree on the free names of a block agree inside it. -/
theorem Agrees.enter (h : Agrees names session other) :
    AgreesInside names session.enter other.enter := by
  refine ⟨⟨h.operators, fun name hname => ?_⟩, rfl⟩
  exact h.find? name hname

/-- Sessions that agree on what is free in a function literal agree on what is free in its body, where
the parameters have their types from the frame. -/
theorem Agrees.enterFunction {params : List String} {types : List Ty}
    (hlen : params.length = types.length)
    (h : Agrees (fun name => name ∉ params ∧ names name) session other) :
    AgreesInside names (session.enterFunction params types) (other.enterFunction params types) := by
  refine ⟨⟨h.operators, fun name hname => ?_⟩, rfl⟩
  simp only [Session.enterFunction, Scope.find?_enter]
  by_cases hparam : name ∈ params
  · obtain ⟨type, htype⟩ := Option.isSome_iff_exists.1 ((lookup_params_isSome_iff hlen).2 hparam)
    rw [htype, Option.some_or, Option.some_or]
  · rw [h.find? name ⟨hparam, hname⟩]

/-- Sessions that agree on what is free in statements agree, after the first of them, on what is free
in the others. -/
theorem AgreesInside.bindAll {stmt : Stmt P} {rest : List (Stmt P)}
    (h : AgreesInside (Stmt.AnyFree · (stmt :: rest)) session other) :
    AgreesInside (Stmt.AnyFree · rest) (session.bindAll [stmt]) (other.bindAll [stmt]) := by
  have hinner : (session.bindAll [stmt]).scope.inner = (other.bindAll [stmt]).scope.inner := by
    simp [Session.bindAll, h.inner]
  refine ⟨⟨h.operators, fun name hname => ?_⟩, hinner⟩
  by_cases hdeclared : stmt.Declares name
  · obtain ⟨type, hs⟩ := hdeclared
    have hlookup : (other.bindAll [stmt]).scope.inner.lookup name = some type := by
      simp [Session.bindAll, hs]
    rw [Scope.find?_eq, Scope.find?_eq, hinner, hlookup, Option.some_or, Option.some_or]
  · rw [Session.find?_bindAll hdeclared, Session.find?_bindAll hdeclared]
    exact h.find? name (.inr ⟨hdeclared, hname⟩)

end Session

/-! ## Steps that cannot tell sessions apart -/

namespace Checking
variable {α β : Type} {session other : Session}

/-- A step yields the same in two sessions. -/
def Same (session other : Session) (step : Checking P α) : Prop :=
  (step.run session).1 = (step.run other).1

/-- Steps that yield the same do so one after another, if the first leaves both sessions as they
are. -/
theorem Same.bind {step : Checking P α} {next : α → Checking P β} (hk : step.Keeps)
    (hs : Same session other step) (hn : ∀ a, Same session other (next a)) :
    Same session other (step >>= next) := by
  have hsession := hk session
  have hother := hk other
  unfold Same at hs hn ⊢
  rw [run_bind, run_bind]
  rcases hr : step.run session with ⟨result, after⟩
  rcases hr' : step.run other with ⟨result', after'⟩
  rw [hr] at hs hsession
  rw [hr'] at hs hother
  cases hs
  cases hsession
  cases hother
  cases result with
  | error fault => rfl
  | ok a => exact hn a

/-- An outcome is the same in all sessions. -/
theorem Same.lift (outcome : Outcome P α) :
    Same session other (liftM outcome : Checking P α) := rfl

/-- A step that reads the session yields the same if it does for what it reads. -/
theorem Same.get_bind {next : Session → Checking P β}
    (h : ((next session).run session).1 = ((next other).run other).1) :
    Same session other (get >>= next) := by
  unfold Same
  rw [run_bind, run_bind]
  exact h

end Checking

/-- Parameters are declared alike where the innermost frame is the same. -/
theorem bindParams_same (pos : P) : ∀ (names : List String) (types : List Ty)
    {session other : Session}, session.scope.inner = other.scope.inner →
      Same session other (bindParams pos names types)
  | [], _, _, _, _ | _ :: _, [], _, _, _ => rfl
  | name :: names, type :: types, session, other, h => by
    have hdeclares : session.scope.declares name = other.scope.declares name := by
      rw [Scope.declares, Scope.declares, h]
    unfold Same bindParams
    rw [run_bind, run_bind, run_declare, run_declare, hdeclares]
    cases other.scope.declares name with
    | true => rfl
    | false =>
      refine bindParams_same pos names types ?_
      exact congrArg ((name, type) :: ·) h

/-- A function body is checked alike if it is so where the parameters are declared. -/
theorem Checking.Same.inFunction {α : Type} {pos : P} {params : List String} {types : List Ty}
    (hlen : params.length = types.length) {body : Checking P α} {session other : Session}
    (h : Same (session.enterFunction params types) (other.enterFunction params types) body) :
    Same session other (inFrame do
      bindParams pos params types
      body) := by
  have hparams : Same session.enter other.enter (bindParams pos params types) :=
    bindParams_same pos params types rfl
  unfold Same at h hparams ⊢
  rw [run_inFrame, run_inFrame, run_bind, run_bind]
  rcases hr : (bindParams pos params types).run session.enter with ⟨result, after⟩
  rcases hr' : (bindParams pos params types).run other.enter with ⟨result', after'⟩
  rw [hr, hr'] at hparams
  cases hparams
  cases result with
  | error fault => rfl
  | ok =>
    obtain ⟨-, -, rfl⟩ := (bindParams_ok_iff hlen).1 hr
    obtain ⟨-, -, rfl⟩ := (bindParams_ok_iff hlen).1 hr'
    simpa [Session.enter, Scope.enter, Session.enterFunction] using h

/-! ## Expressions and blocks -/

-- The induction is on the syntax. An expression is typed alike in sessions that agree on its free
-- names, and a block in sessions that also have the same innermost frame, which its declarations
-- are looked up in.
mutual

/-- An expression has the same type, or the same fault, in sessions that agree on its free names. -/
theorem Expr.typeFor_same : ∀ (expr : Expr P) (wanted : Option Ty) {session other : Session},
    session.Agrees (expr.Free ·) other → Same session other (expr.typeFor wanted)
  | .boolean .., _, _, _, _ | .number .., _, _, _, _ | .string .., _, _, _, _ => rfl
  | .symbol name span, wanted, session, other, h => by
    refine .get_bind ?_
    rw [h.find? name rfl]
    cases other.scope.find? name <;> rfl
  | .operation op args span, wanted, session, other, h => by
    have hargs : session.Agrees (Expr.AnyFree · args) other := h
    refine .get_bind ?_
    rw [h.operators]
    cases other.operators op with
    | none => rfl
    | some opType =>
      cases opType with
      | equality =>
        exact Same.bind (Keeps.lift _) (.lift _) fun _ => .bind (Expr.checkEqual_keeps args)
          (Expr.checkEqual_same args hargs) fun _ => rfl
      | fixed params result =>
        exact Same.bind (Keeps.lift _) (.lift _) fun _ => .bind (Expr.checkArgs_keeps args params)
          (Expr.checkArgs_same args params hargs) fun _ => rfl
  | .call callee args span, wanted, session, other, h => by
    refine .bind (callee.typeFor_keeps none)
      (callee.typeFor_same none (h.mono fun _ => .inl)) fun type => ?_
    cases type with
    | name => rfl
    | function params result =>
      exact .bind (Keeps.lift _) (.lift _) fun _ => .bind (Expr.checkArgs_keeps args params)
        (Expr.checkArgs_same args params (h.mono fun _ => .inr)) fun _ => rfl
  | .function params body span, wanted, session, other, h => by
    unfold Expr.typeFor
    match wanted with
    | none => exact rfl
    | some (.name _) => exact rfl
    | some (.function types result) =>
      simp only
      split
      · exact rfl
      · rename_i hlen
        have hlen : params.length = types.length := (not_not.1 hlen).symm
        have hkeeps := (bindParams_keepsOuter span.start params types).bind fun _ =>
          body.check_keepsOuter
        exact .bind hkeeps.inFrame (.inFunction hlen (body.check_same (h.enterFunction hlen)))
          fun _ => .bind (Keeps.lift _) (.lift _) fun _ => rfl

/-- Arguments are checked alike in sessions that agree on their free names. -/
theorem Expr.checkArgs_same : ∀ (args : List (Expr P)) (params : List Ty) {session other : Session},
    session.Agrees (Expr.AnyFree · args) other → Same session other (Expr.checkArgs args params)
  | [], _, _, _, _ | _ :: _, [], _, _, _ => rfl
  | arg :: args, _ :: params, _, _, h =>
    .bind (arg.typeFor_keeps _) (arg.typeFor_same _ (h.mono fun _ => .inl)) fun _ =>
      .bind (Keeps.lift _) (.lift _) fun _ =>
        Expr.checkArgs_same args params (h.mono fun _ => .inr)

/-- Two arguments are compared alike in sessions that agree on their free names. -/
theorem Expr.checkEqual_same : ∀ (args : List (Expr P)) {session other : Session},
    session.Agrees (Expr.AnyFree · args) other → Same session other (Expr.checkEqual args)
  | [], _, _, _ => rfl
  | left :: rest, _, _, h =>
    .bind (left.typeFor_keeps none) (left.typeFor_same none (h.mono fun _ => .inl)) fun type =>
      Expr.checkArgs_same rest [type] (h.mono fun _ => .inr)

/-- A statement is checked alike in sessions that agree on its free names inside a block. -/
theorem Stmt.check_same : ∀ (stmt : Stmt P) {session other : Session},
    session.AgreesInside (stmt.Free ·) other → Same session other stmt.check
  | .declare name type value span, session, other, h => by
    refine .get_bind ?_
    have hdeclares : session.scope.declares name = other.scope.declares name := by
      rw [Scope.declares, Scope.declares, h.inner]
    rw [hdeclares]
    cases hd : other.scope.declares name with
    | true => rfl
    | false =>
      refine Same.bind (value.typeFor_keeps _) (value.typeFor_same _ h.toAgrees) fun _ =>
        .bind (Keeps.lift _) (.lift _) fun _ => ?_
      unfold Same
      rw [run_bind, run_bind, run_declare, run_declare, hdeclares, hd]
      rfl
  | .assign name value span, session, other, h => by
    refine .get_bind ?_
    rw [h.find? name (.inl rfl)]
    cases other.scope.find? name with
    | none => rfl
    | some type =>
      exact Same.bind (value.typeFor_keeps _)
        (value.typeFor_same _ (h.toAgrees.mono fun _ => .inr)) fun _ =>
          .bind (Keeps.lift _) (.lift _) fun _ => rfl
  | .branch condition yes no _, session, other, h =>
    .bind (condition.typeFor_keeps _)
      (condition.typeFor_same _ (h.toAgrees.mono fun _ => .inl)) fun _ =>
        .bind (Keeps.lift _) (.lift _) fun _ =>
          .bind yes.check_keepsOuter.inFrame
            (yes.check_same (h.toAgrees.mono fun _ hname => .inr (.inl hname)).enter) fun _ =>
              .bind no.check_keepsOuter.inFrame
                (no.check_same (h.toAgrees.mono fun _ hname => .inr (.inr hname)).enter)
                fun _ => rfl
  | .loop condition body _, session, other, h =>
    .bind (condition.typeFor_keeps _)
      (condition.typeFor_same _ (h.toAgrees.mono fun _ => .inl)) fun _ =>
        .bind (Keeps.lift _) (.lift _) fun _ =>
          body.check_same (h.toAgrees.mono fun _ => .inr).enter
  | .returnValue value _, session, other, h | .expression value _, session, other, h =>
    .bind (value.typeFor_keeps none) (value.typeFor_same none h.toAgrees) fun _ => rfl
  | .returnVoid _, _, _, _ => rfl

/-- Statements are checked alike in sessions that agree on their free names inside a block. -/
theorem Stmt.checkAll_same : ∀ (stmts : List (Stmt P)) {session other : Session},
    session.AgreesInside (Stmt.AnyFree · stmts) other → Same session other (Stmt.checkAll stmts)
  | [], _, _, _ => rfl
  | stmt :: rest, session, other, h => by
    have hstmt := stmt.check_same (h.mono fun _ => .inl)
    have hrest := Stmt.checkAll_same rest h.bindAll
    unfold Same at hstmt hrest ⊢
    rw [Stmt.checkAll_cons_outcome, Stmt.checkAll_cons_outcome, hstmt, hrest]

/-- A block is checked alike in sessions that agree on its free names and have the same innermost
frame. -/
theorem Block.check_same : ∀ (block : Block P) {session other : Session},
    session.AgreesInside (block.Free ·) other → Same session other block.check
  | .mk stmts span, session, other, h => by
    have hstmts := Stmt.checkAll_same stmts h
    unfold Same at hstmts ⊢
    rw [Block.check_run, Block.check_run]
    exact congrArg (· >>= singleReturn span.start) hstmts

end

/-! ## Types of expressions -/

/-- What an expression is typed as depends on nothing but the operators and what its free names mean.
Sessions with the same operators and any frames in which these names have the same types, or none in
either, give it the same type or the same fault, on its own and where a type is wanted. -/
theorem Session.typing_eq_of_free {session other : Session} (expr : Expr P)
    (hoperators : session.operators = other.operators)
    (hfree : ∀ name, expr.Free name → session.scope.find? name = other.scope.find? name) :
    session.infer expr = other.infer expr ∧
      ∀ type, session.check type expr = other.check type expr := by
  have hagrees : session.Agrees (expr.Free ·) other := ⟨hoperators, hfree⟩
  refine ⟨expr.typeFor_same none hagrees, fun type => ?_⟩
  exact Same.bind (expr.typeFor_keeps (some type)) (expr.typeFor_same (some type) hagrees) fun _ =>
    .bind (Keeps.lift _) (.lift _) fun _ => rfl

/-- A function literal that calls `f`, and then has an `f` of its own in an inner block, in two
sessions that have only the outer `f` in common. Its parameter and its local name mean something else
in the second session. -/
theorem Session.typing_eq_of_free_shadowed :
    let span : Span Nat := ⟨0, 1⟩
    let function : Ty := .function [Ty.int] Ty.int
    let called : Expr Nat := .call (.symbol "f" span) [.symbol "x" span] span
    let shadow : Stmt Nat := .declare "f" Ty.bool (.boolean true span) span
    let body : Block Nat := .mk [.declare "y" Ty.int called span,
      .loop (.boolean true span) (.mk [shadow, .expression (.symbol "f" span) span] span) span,
      .assign "y" (.number 1 span) span, .returnValue (.symbol "y" span) span] span
    let expr : Expr Nat := .function ["x"] body span
    let session : Session := ⟨OperatorTable.builtin, ⟨[("f", function)], []⟩⟩
    let other : Session :=
      ⟨OperatorTable.builtin, ⟨[("y", Ty.bool)], [[("x", Ty.string)], [("f", function)]]⟩⟩
    session.operators = other.operators ∧
      (∀ name, expr.Free name → session.scope.find? name = other.scope.find? name) ∧
      session.check function expr = .ok function ∧
      session.infer expr = other.infer expr ∧
      ∀ type, session.check type expr = other.check type expr := by
  intro span function called shadow body expr session other
  have hfree (name : String) (h : expr.Free name) :
      session.scope.find? name = other.scope.find? name := by
    obtain rfl : name = "f" := by
      by_contra hne
      simp [expr, body, called, shadow, Expr.Free, Block.Free, Stmt.AnyFree, Stmt.Free,
        Expr.AnyFree, Stmt.Declares, Stmt.declared?, eq_comm, hne] at h
    rfl
  exact ⟨rfl, hfree, rfl, Session.typing_eq_of_free expr rfl hfree⟩

end LetWhile
