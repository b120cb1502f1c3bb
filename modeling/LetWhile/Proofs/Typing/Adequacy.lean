import LetWhile.Proofs.Ty.Distinct
import LetWhile.Proofs.Typing.Framing
import LetWhile.Proofs.Typing.Rules

/-!
# The checker decides the typing rules

`Block.check_ok_iff` says which types a block yields: the distinct ones of its returns, where the
rules type it. So a program is accepted exactly if it is derivable in the context that the scope
stands for (`accepts_iff_derivable`). The induction is on the syntax: since expressions keep the
session (`Expr.typeFor_keeps`), each part of an expression is checked in the session of the whole,
and a statement is followed in the context that `Stmt.check_binds` leaves.
-/

namespace LetWhile

open Typing Checking

variable {P : Type}

/-! ## Scopes as contexts -/

/-- What the names in a frame mean. -/
def Frame.bindings (frame : Frame) : Bindings := fun name => frame.lookup name

/-- The context that a scope stands for. -/
def Scope.context (scope : Scope) : Context :=
  ⟨Frame.bindings scope.inner, scope.outer.map Frame.bindings⟩

/-- The context of a scope has the bindings of its frames. -/
@[simp]
theorem Scope.context_frames (scope : Scope) :
    scope.context.frames = scope.frames.map Frame.bindings := rfl

/-- Looking a name up finds the type that the nearest frame gives it. -/
theorem Scope.find?_eq_some_iff {scope : Scope} {name : String} {type : Ty} :
    scope.find? name = some type ↔ Binds scope.context.frames name type := by
  rw [context_frames, find?]
  induction scope.frames with
  | nil => exact ⟨nofun, nofun⟩
  | cons frame outer ih =>
    rw [List.findSome?_cons, List.map_cons]
    cases hf : frame.lookup name with
    | none =>
      simp only [ih]
      refine ⟨.there hf, fun h => ?_⟩
      cases h with
      | here h => exact absurd (hf.symm.trans h) nofun
      | there _ h => exact h
    | some found =>
      refine ⟨?_, ?_⟩
      · intro h'
        obtain ⟨rfl⟩ := h'
        exact .here hf
      · intro h
        cases h with
        | here h => exact hf.symm.trans h
        | there h _ => exact absurd (hf.symm.trans h) nofun

/-- A name is not declared in the innermost frame exactly if that binds nothing to it. -/
theorem Scope.declares_eq_false_iff {scope : Scope} {name : String} :
    scope.declares name = false ↔ scope.context.inner name = none := by
  simp [declares, context, Frame.bindings]

/-- Names put in front of a frame hide what it said about them. -/
theorem Frame.bindings_cons (frame : Frame) (name : String) (type : Ty) :
    Frame.bindings ((name, type) :: frame) =
      Function.update (Frame.bindings frame) name (some type) := by
  funext other
  rw [bindings, Function.update_apply, List.lookup_cons]
  by_cases h : other = name
  · simp [h]
  · rw [beq_eq_false_iff_ne.2 h, if_neg h]
    rfl

/-- A statement is followed in the context that the rules follow it in. -/
theorem Session.context_bindAll (session : Session) (stmt : Stmt P) :
    (session.bindAll [stmt]).scope.context = session.scope.context.after stmt := by
  cases stmt with
  | declare name type value span =>
    simp [bindAll, Stmt.declared?, Scope.context, Frame.bindings_cons, Context.after,
      Context.declare]
  | assign | branch | loop | returnValue | returnVoid | expression => rfl

/-! ## Parameters -/

/-- Distinct names mean the same in either order of a frame. -/
theorem lookup_reverse_zip {names : List String} (types : List Ty) (h : names.Nodup)
    (name : String) : (names.zip types).reverse.lookup name = (names.zip types).lookup name := by
  induction names generalizing types with
  | nil => rfl
  | cons first names ih =>
    cases types with
    | nil => rfl
    | cons type types =>
      obtain ⟨hfirst, hnames⟩ := List.nodup_cons.1 h
      rw [List.zip_cons_cons, List.reverse_cons, List.lookup_append, ih types hnames,
        List.lookup_cons]
      by_cases he : name = first
      · subst he
        have : (names.zip types).lookup name = none := by
          rw [List.lookup_eq_none_iff]
          rintro ⟨other, _⟩ hmem
          have : other ≠ name := by
            rintro rfl
            exact hfirst (List.of_mem_zip hmem).1
          simpa using this.symm
        simp [this]
      · rw [List.lookup_cons, beq_eq_false_iff_ne.2 he, List.lookup_nil, Option.or_none]

/-- Parameters are declared if their names are distinct and new; then they stand in the frame. -/
theorem bindParams_ok_iff {pos : P} {names : List String} {types : List Ty}
    (hlen : names.length = types.length) {session after : Session} {result : Unit} :
    (bindParams pos names types).run session = (.ok result, after) ↔
      names.Nodup ∧ (∀ name ∈ names, session.scope.declares name = false) ∧
        after = ⟨session.operators,
          ⟨(names.zip types).reverse ++ session.scope.inner, session.scope.outer⟩⟩ := by
  induction names generalizing types session with
  | nil =>
    cases types with
    | nil =>
      unfold bindParams
      simp only [Checking.run_pure, List.nodup_nil, List.not_mem_nil, false_imp_iff, forall_const,
        true_and, List.zip_nil_left, List.reverse_nil, List.nil_append, Prod.mk.injEq]
      exact eq_comm
    | cons => simp at hlen
  | cons name names ih =>
    cases types with
    | nil => simp at hlen
    | cons type types =>
      have hlen : names.length = types.length := by simpa using hlen
      unfold bindParams
      rw [Checking.run_bind, Checking.run_declare]
      have hdeclares (other : String) : (session.scope.declare name type).declares other = false ↔
          other ≠ name ∧ session.scope.declares other = false := by
        rw [Scope.declares_eq_false_iff, Scope.declares_eq_false_iff]
        simp only [Scope.context, Scope.declare, Frame.bindings_cons, Function.update_apply]
        by_cases h : other = name <;> simp [h]
      cases hd : session.scope.declares name with
      | true => simp [hd]
      | false =>
        simp only [Bool.false_eq_true, if_false, ih hlen, hdeclares, List.nodup_cons,
          List.forall_mem_cons, hd, true_and, List.zip_cons_cons, List.reverse_cons,
          List.append_assoc, List.singleton_append]
        refine ⟨?_, ?_⟩
        · intro h'
          obtain ⟨hnames, hnew, rfl⟩ := h'
          exact ⟨⟨fun hmem => (hnew name hmem).1 rfl, hnames⟩, fun n hn => (hnew n hn).2, rfl⟩
        · intro h'
          obtain ⟨⟨hname, hnames⟩, hnew, rfl⟩ := h'
          exact ⟨hnames, fun n hn => ⟨fun e => hname (e ▸ hn), hnew n hn⟩, rfl⟩

/-! ## What yields a result -/

/-- Where the first of two steps keeps the session, both have to yield a result in it. -/
theorem Checking.Keeps.bind_ok_iff {α β : Type} {step : Checking P α} {next : α → Checking P β}
    (h : step.Keeps) {session : Session} {b : β} :
    ((step >>= next).run session).1 = .ok b ↔
      ∃ a, (step.run session).1 = .ok a ∧ ((next a).run session).1 = .ok b := by
  have hkeep := h session
  rw [run_bind]
  rcases hr : step.run session with ⟨_ | a, after⟩
  · simp
  · rw [hr] at hkeep
    simp only at hkeep
    subst hkeep
    simp

/-- A count of arguments is right if it is the number of parameters. -/
theorem checkCount_ok_iff {expected : Nat} {args : List (Expr P)} {span : Span P} {result : Unit} :
    checkCount expected args span = .ok result ↔ args.length = expected := by
  unfold checkCount
  cases h : args[expected]? with
  | some extra =>
    have := (List.getElem?_eq_some_iff.1 h).1
    simp
    omega
  | none =>
    have := List.getElem?_eq_none_iff.1 h
    simp only
    split
    · simp
      omega
    · simp
      omega

/-- Two types agree exactly if they are equal. -/
theorem agree_ok_iff {use : Use} {expected received : Ty} {pos : P} {result : Unit} :
    agree use expected received pos = .ok result ↔ received = expected := by
  unfold agree
  split <;> simp [*]

/-- What a function literal returns is right if its first return type is, if it has one. -/
theorem checkResult_ok_iff {pos : P} {expected : Ty} {returned : List Ty} {result : Unit} :
    checkResult pos expected returned = .ok result ↔ ∀ type ∈ returned.head?, type = expected := by
  cases returned with
  | nil => simp [checkResult]
  | cons type more =>
    unfold checkResult
    split <;> simp [*]

/-- A block yields the distinct types of what its statements may return, if there is one at most. -/
theorem singleReturn_ok_iff {pos : P} {types distinct : List Ty} :
    singleReturn pos types = .ok distinct ↔ Ty.dedup types = distinct ∧ distinct.length ≤ 1 := by
  unfold singleReturn
  split
  · rename_i first second more h
    rw [h]
    simp
    rintro rfl
    simp
  · rename_i h
    refine ⟨?_, ?_⟩
    · intro h'
      obtain ⟨rfl⟩ := h'
      match hd : Ty.dedup types with
      | [] | [_] => simp
      | _ :: _ :: _ => exact absurd hd (h _ _ _)
    · intro h'
      obtain ⟨rfl, -⟩ := h'
      rfl

/-- Parameters and body share one frame, which holds the parameters when the body is checked. -/
theorem inFrame_bindParams_ok_iff {pos : P} {params : List String} {types : List Ty}
    (hlen : params.length = types.length) {body : Checking P (List Ty)} {session : Session}
    {returned : List Ty} :
    ((Checking.inFrame do
        bindParams pos params types
        body).run session).1 = .ok returned ↔
      params.Nodup ∧ (body.run ⟨session.operators,
        session.scope.enter (params.zip types).reverse⟩).1 = .ok returned := by
  rw [Checking.run_inFrame, Checking.run_bind]
  have hiff (after : Session) :
      (bindParams pos params types).run session.enter = (.ok ⟨⟩, after) ↔ _ :=
    bindParams_ok_iff hlen
  have hnew : ∀ name ∈ params, session.enter.scope.declares name = false := fun _ _ => rfl
  rcases hr : (bindParams pos params types).run session.enter with ⟨fault | _, after⟩
  · have : ¬ params.Nodup := fun hnodup => by
      have := (hiff _).2 ⟨hnodup, hnew, rfl⟩
      rw [hr] at this
      cases this
    simp [this]
  · obtain ⟨hnodup, -, rfl⟩ := (hiff after).1 hr
    simp [hnodup, Session.enter, Scope.enter]

/-- The distinct returns of a block are right for a function if all its returns are. -/
theorem head?_dedup_iff {returns : List Ty} (h : ∀ a ∈ returns, ∀ b ∈ returns, a = b) {result : Ty} :
    (∀ type ∈ (Ty.dedup returns).head?, type = result) ↔ ∀ type ∈ returns, type = result := by
  refine ⟨?_, ?_⟩
  · intro hhead type htype
    match hd : Ty.dedup returns with
    | [] => exact absurd (Ty.mem_dedup.2 htype) (by simp [hd])
    | first :: more =>
      have hfirst : first ∈ returns := Ty.mem_dedup.1 (by simp [hd])
      exact (h type htype first hfirst).trans (hhead first (by simp [hd]))
  · intro hall type htype
    exact hall type (Ty.mem_dedup.1 (List.mem_of_head? htype))

/-! ## Derivations -/

namespace Typing

/-- Arguments that check against parameters are as many. -/
theorem ChecksAll.length_eq : ∀ {Γ : Context} {args : List (Expr P)} {params : List Ty},
    ChecksAll Γ args params → args.length = params.length
  | _, _, _, .nil => rfl
  | _, _, _, .cons _ h => congrArg Nat.succ h.length_eq

/-- All types that a well-typed block returns are equal. -/
theorem BlockTyped.returns_eq {Γ : Context} {block : Block P} {returns : List Ty}
    (h : BlockTyped Γ block returns) : ∀ a ∈ returns, ∀ b ∈ returns, a = b := by
  cases h with
  | block _ h => exact h

end Typing

/-! ## Agreement -/

/-- What the checker says of an expression is what the rules say of it. -/
structure Expr.Decided (expr : Expr P) (session : Session) : Prop where
  infers : ∀ {type}, ((expr.typeFor none).run session).1 = .ok type ↔
    Infers session.scope.context expr type
  checks : ∀ {type}, ((expr.typeFor (some type)).run session).1 = .ok type ↔
    Checks session.scope.context expr type

/-- An expression that does not look at the type that is wanted can be used at the type that it
has. -/
theorem Expr.Decided.of_infers {expr : Expr P} {session : Session}
    (hwanted : ∀ wanted, expr.typeFor wanted = expr.typeFor none)
    (hchecks : ∀ {type}, Checks session.scope.context expr type →
      Infers session.scope.context expr type)
    (h : ∀ {type}, ((expr.typeFor none).run session).1 = .ok type ↔
      Infers session.scope.context expr type) : expr.Decided session :=
  ⟨h, fun {type} => by rw [hwanted, h]; exact ⟨.inferred, hchecks⟩⟩

/-- An expression that has the type which is wanted. -/
theorem Expr.Decided.agree_iff {expr : Expr P} {session : Session} (h : expr.Decided session)
    {use : Use} {expected : Ty} {pos : P} {β : Type} {next : Checking P β} {b : β} :
    ((do
        let received ← expr.typeFor (some expected)
        agree use expected received pos
        next).run session).1 = .ok b ↔
      Checks session.scope.context expr expected ∧ (next.run session).1 = .ok b := by
  rw [(expr.typeFor_keeps _).bind_ok_iff]
  simp only [(Keeps.lift _).bind_ok_iff, run_lift, agree_ok_iff, ← h.checks]
  refine ⟨?_, ?_⟩
  · intro h'
    obtain ⟨received, hr, _, rfl, hn⟩ := h'
    exact ⟨hr, hn⟩
  · intro h'
    obtain ⟨hr, hn⟩ := h'
    exact ⟨expected, hr, ⟨⟩, rfl, hn⟩

/-- What the checker says of arguments is what the rules say of them, where they are as many as the
parameters. -/
def Expr.ArgsDecided (args : List (Expr P)) (session : Session) : Prop :=
  ∀ (params : List Ty) (done : Unit), args.length = params.length →
    (((Expr.checkArgs args params).run session).1 = .ok done ↔
      ChecksAll session.scope.context args params)

/-- What the checker says of a statement is what the rules say of it, and the types that it returns
are those of the rules, each once. -/
def Stmt.Decided (stmt : Stmt P) (session : Session) : Prop :=
  ∀ types, (stmt.check.run session).1 = .ok types ↔
    ∃ returns, StmtTyped session.scope.context stmt returns ∧ Ty.dedup returns = types

/-- What the checker says of a block is what the rules say of it, and the types that it returns are
those of the rules, each once. -/
def Block.Decided (block : Block P) (session : Session) : Prop :=
  ∀ types, (block.check.run session).1 = .ok types ↔
    ∃ returns, BlockTyped session.scope.context block returns ∧ Ty.dedup returns = types

/-! ## The forms of an expression

One lemma for each form whose parts are decided. -/

namespace Expr

variable {session : Session}

/-- A name is looked up as the rules look it up. -/
theorem Decided.symbol (name : String) (span : Span P) :
    (Expr.symbol name span).Decided session := by
  refine .of_infers (fun _ => rfl) (fun h => by cases h; assumption) @fun type => ?_
  unfold typeFor
  simp only [run_bind, run_get]
  cases hf : session.scope.find? name with
  | none =>
    refine ⟨?_, ?_⟩
    · intro h
      cases h
    · intro h
      cases h with
      | symbol h => cases hf.symm.trans (Scope.find?_eq_some_iff.2 h)
  | some found =>
    refine ⟨?_, ?_⟩
    · intro h
      cases h
      exact .symbol (Scope.find?_eq_some_iff.1 hf)
    · intro h
      cases h with
      | symbol h =>
        cases hf.symm.trans (Scope.find?_eq_some_iff.2 h)
        rfl

variable {args : List (Expr P)}

/-- Arguments whose number is tested first yield a result exactly if they check against the
parameters, where as many of them do. -/
theorem checkCount_checkArgs_ok_iff {params : List Ty} {result type : Ty} {span : Span P}
    (hargs : ArgsDecided args session) :
    ((do
        let _ ← (checkCount params.length args span : Outcome P Unit)
        checkArgs args params
        pure result : Checking P Ty).run session).1 = .ok type ↔
      ChecksAll session.scope.context args params ∧ result = type := by
  simp only [(Keeps.lift _).bind_ok_iff, (checkArgs_keeps args params).bind_ok_iff, run_lift,
    checkCount_ok_iff, run_pure, Except.ok.injEq]
  refine ⟨?_, ?_⟩
  · intro h
    obtain ⟨_, hlen, _, hrun, rfl⟩ := h
    exact ⟨(hargs _ _ hlen).1 hrun, rfl⟩
  · intro h
    obtain ⟨hchecks, rfl⟩ := h
    exact ⟨⟨⟩, hchecks.length_eq, ⟨⟩, (hargs _ _ hchecks.length_eq).2 hchecks, rfl⟩

/-- An operator is called as the rules say, if its operands are checked as they say. -/
theorem Decided.operation (op : Operator) (span : Span P)
    (hops : session.operators = OperatorTable.builtin)
    (hargs : ArgsDecided args session)
    (hequal : ∀ {done : Unit}, args.length = 2 →
      (((checkEqual args).run session).1 = .ok done ↔
        ∃ left right type, args = [left, right] ∧ Infers session.scope.context left type ∧
          Checks session.scope.context right type)) :
    (Expr.operation op args span).Decided session := by
  refine .of_infers (fun _ => rfl) (fun h => by cases h; assumption) @fun type => ?_
  unfold typeFor
  rw [run_bind, run_get]
  simp only [hops]
  cases ho : OperatorTable.builtin op with
  | none =>
    refine ⟨?_, ?_⟩
    · intro h
      cases h
    · intro h
      cases h with
      | operation h _ | equality h _ _ => cases ho.symm.trans h
  | some opType =>
    cases opType with
    | equality =>
      simp only [(Keeps.lift _).bind_ok_iff, (checkEqual_keeps args).bind_ok_iff, run_lift,
        checkCount_ok_iff]
      refine ⟨?_, ?_⟩
      · intro h'
        obtain ⟨_, hlen, _, heq, h⟩ := h'
        cases h
        obtain ⟨left, right, type, rfl, hl, hr⟩ := (hequal hlen).1 heq
        exact .equality ho hl hr
      · intro h
        cases h with
        | operation h _ => cases ho.symm.trans h
        | equality _ hl hr => exact ⟨⟨⟩, rfl, ⟨⟩, (hequal rfl).2 ⟨_, _, _, rfl, hl, hr⟩, rfl⟩
    | fixed params result =>
      refine (checkCount_checkArgs_ok_iff hargs).trans ⟨?_, ?_⟩
      · intro h'
        obtain ⟨hchecks, rfl⟩ := h'
        exact .operation ho hchecks
      · intro h
        cases h with
        | equality h _ _ => cases ho.symm.trans h
        | operation h hchecks =>
          cases ho.symm.trans h
          exact ⟨hchecks, rfl⟩

/-- A call is checked as the rules say, if its callee and its arguments are. -/
theorem Decided.call {callee : Expr P} (span : Span P) (hcallee : callee.Decided session)
    (hargs : ArgsDecided args session) :
    (Expr.call callee args span).Decided session := by
  refine .of_infers (fun _ => rfl) (fun h => by cases h; assumption) @fun type => ?_
  unfold typeFor
  rw [(callee.typeFor_keeps none).bind_ok_iff]
  refine ⟨?_, ?_⟩
  · intro h'
    obtain ⟨calleeType, hrun, h⟩ := h'
    cases calleeType with
    | name => cases h
    | function params result =>
      obtain ⟨hchecks, rfl⟩ := (checkCount_checkArgs_ok_iff hargs).1 h
      exact .call (hcallee.infers.1 hrun) hchecks
  · intro h
    cases h with
    | call htype hchecks =>
      exact ⟨_, hcallee.infers.2 htype, (checkCount_checkArgs_ok_iff hargs).2 ⟨hchecks, rfl⟩⟩

/-- A function literal is checked as the rules say, if its body is where the parameters are
declared. -/
theorem Decided.function {params : List String} {body : Block P} (span : Span P)
    (hbody : ∀ frame, body.Decided ⟨session.operators, session.scope.enter frame⟩) :
    (Expr.function params body span).Decided session := by
  refine ⟨⟨nofun, nofun⟩, @fun type => ?_⟩
  unfold typeFor
  cases type with
  | name => exact ⟨nofun, fun h => by cases h with | inferred h => cases h⟩
  | function types result =>
    simp only
    split
    · rename_i hlen
      refine ⟨nofun, fun h => ?_⟩
      cases h with
      | inferred h => cases h
      | function _ h _ _ => exact absurd h.symm hlen
    · rename_i hlen
      have hlen : params.length = types.length := (not_not.1 hlen).symm
      have hkeeps : (Checking.inFrame do
          bindParams span.start params types
          body.check).Keeps :=
        ((bindParams_keepsOuter span.start params types).bind fun _ =>
          body.check_keepsOuter).inFrame
      -- The frame holds the parameters in reverse, the rules in their order: that is the same
      -- context as soon as no name is there twice.
      have hcontext (hnodup : params.Nodup) :
          (session.scope.enter (params.zip types).reverse).context =
            session.scope.context.enter (.ofParams params types) := by
        have : Frame.bindings (params.zip types).reverse = .ofParams params types :=
          funext fun name => lookup_reverse_zip types hnodup name
        rw [← this]
        rfl
      simp only [hkeeps.bind_ok_iff, (Keeps.lift _).bind_ok_iff, run_lift, checkResult_ok_iff,
        inFrame_bindParams_ok_iff hlen]
      refine ⟨?_, ?_⟩
      · intro h'
        obtain ⟨returned, ⟨hnodup, hrun⟩, _, hresult, -⟩ := h'
        obtain ⟨returns, htyped, rfl⟩ := (hbody _ _).1 hrun
        rw [hcontext hnodup] at htyped
        exact .function hnodup hlen htyped ((head?_dedup_iff htyped.returns_eq).1 hresult)
      · intro h
        cases h with
        | inferred h => cases h
        | function hnodup _ htyped hresult =>
          refine ⟨_, ⟨hnodup, (hbody _ _).2 ⟨_, ?_, rfl⟩⟩, ⟨⟩,
            (head?_dedup_iff htyped.returns_eq).2 hresult, rfl⟩
          rw [hcontext hnodup]
          exact htyped

end Expr

/-! ## The forms of a statement -/

namespace Stmt

variable {session : Session} {name : String} {value condition : Expr P}

/-- A declaration is checked as the rules say, if its value is. -/
theorem Decided.declare (type : Ty) (span : Span P) (hvalue : value.Decided session) :
    (Stmt.declare name type value span).Decided session := fun types => by
  unfold check
  simp only [run_bind, run_get]
  have hnew : session.scope.declares name = false ↔ _ := Scope.declares_eq_false_iff
  cases hd : session.scope.declares name with
  | true =>
    refine ⟨nofun, fun ⟨_, h, _⟩ => ?_⟩
    cases h with
    | declare h _ => exact absurd (hd.symm.trans (hnew.2 h)) nofun
  | false =>
    rw [if_neg Bool.false_ne_true, hvalue.agree_iff]
    simp only [run_bind, run_declare, hd, Bool.false_eq_true, if_false, run_pure,
      Except.ok.injEq]
    refine ⟨?_, ?_⟩
    · intro h'
      obtain ⟨hchecks, rfl⟩ := h'
      exact ⟨[], .declare (hnew.1 hd) hchecks, rfl⟩
    · intro h'
      obtain ⟨_, h, rfl⟩ := h'
      cases h with
      | declare _ hchecks => exact ⟨hchecks, rfl⟩

/-- An assignment is checked as the rules say, if its value is. -/
theorem Decided.assign (span : Span P) (hvalue : value.Decided session) :
    (Stmt.assign name value span).Decided session := fun types => by
  unfold check
  simp only [run_bind, run_get]
  cases hf : session.scope.find? name with
  | none =>
    refine ⟨?_, ?_⟩
    · intro h'
      cases h'
    · intro h'
      obtain ⟨_, h, -⟩ := h'
      cases h with
      | assign h _ => cases hf.symm.trans (Scope.find?_eq_some_iff.2 h)
  | some type =>
    simp only [hvalue.agree_iff, run_pure, Except.ok.injEq]
    refine ⟨?_, ?_⟩
    · intro h'
      obtain ⟨hchecks, rfl⟩ := h'
      exact ⟨[], .assign (Scope.find?_eq_some_iff.1 hf) hchecks, rfl⟩
    · intro h'
      obtain ⟨_, h, rfl⟩ := h'
      cases h with
      | assign h hchecks =>
        cases hf.symm.trans (Scope.find?_eq_some_iff.2 h)
        exact ⟨hchecks, rfl⟩

/-- A conditional is checked as the rules say, if its condition is and both its branches are in
frames of their own. -/
theorem Decided.branch {yes no : Block P} (span : Span P) (hcondition : condition.Decided session)
    (hyes : yes.Decided session.enter) (hno : no.Decided session.enter) :
    (Stmt.branch condition yes no span).Decided session := fun types => by
  unfold check
  simp only [hcondition.agree_iff, yes.check_keepsOuter.inFrame.bind_ok_iff,
    no.check_keepsOuter.inFrame.bind_ok_iff, run_inFrame, hyes _, hno _, run_pure, Except.ok.injEq]
  refine ⟨?_, ?_⟩
  · intro h'
    obtain ⟨hchecks, _, ⟨yesReturns, hyes, rfl⟩, _, ⟨noReturns, hno, rfl⟩, rfl⟩ := h'
    exact ⟨yesReturns ++ noReturns, .branch hchecks hyes hno, (Ty.dedup_append_dedup _ _).symm⟩
  · intro h'
    obtain ⟨_, h, rfl⟩ := h'
    cases h with
    | branch hchecks hyes hno =>
      exact ⟨hchecks, _, ⟨_, hyes, rfl⟩, _, ⟨_, hno, rfl⟩, Ty.dedup_append_dedup _ _⟩

/-- A loop is checked as the rules say, if its condition is and its body is in a frame of its
own. -/
theorem Decided.loop {body : Block P} (span : Span P) (hcondition : condition.Decided session)
    (hbody : body.Decided session.enter) :
    (Stmt.loop condition body span).Decided session := fun types => by
  unfold check
  rw [hcondition.agree_iff, run_inFrame, hbody types]
  refine ⟨?_, ?_⟩
  · intro h'
    obtain ⟨hchecks, returns, hbody, rfl⟩ := h'
    exact ⟨returns, .loop hchecks hbody, rfl⟩
  · intro h'
    obtain ⟨_, h, rfl⟩ := h'
    cases h with
    | loop hchecks hbody => exact ⟨hchecks, _, hbody, rfl⟩

/-- A return is checked as the rules say, if its value is. -/
theorem Decided.returnValue (span : Span P) (hvalue : value.Decided session) :
    (Stmt.returnValue value span).Decided session := fun types => by
  unfold check
  simp only [(value.typeFor_keeps none).bind_ok_iff, hvalue.infers, run_pure, Except.ok.injEq]
  refine ⟨?_, ?_⟩
  · intro h'
    obtain ⟨type, hinfers, rfl⟩ := h'
    exact ⟨[type], .returnValue hinfers, rfl⟩
  · intro h'
    obtain ⟨_, h, rfl⟩ := h'
    cases h with
    | returnValue hinfers => exact ⟨_, hinfers, rfl⟩

/-- A return without a value returns `Void`. -/
theorem Decided.returnVoid (span : Span P) : (Stmt.returnVoid span).Decided session :=
  fun types => by
    refine ⟨?_, ?_⟩
    · intro h'
      cases h'
      exact ⟨[Ty.void], .returnVoid, rfl⟩
    · intro h'
      obtain ⟨_, h, rfl⟩ := h'
      cases h
      rfl

/-- An expression is checked as the rules say where it stands as a statement. -/
theorem Decided.expression (span : Span P) (hvalue : value.Decided session) :
    (Stmt.expression value span).Decided session := fun types => by
  unfold check
  simp only [(value.typeFor_keeps none).bind_ok_iff, hvalue.infers, run_pure, Except.ok.injEq]
  refine ⟨?_, ?_⟩
  · intro h'
    obtain ⟨type, hinfers, rfl⟩ := h'
    exact ⟨[], .expression hinfers, rfl⟩
  · intro h'
    obtain ⟨_, h, rfl⟩ := h'
    cases h with
    | expression hinfers => exact ⟨_, hinfers, rfl⟩

end Stmt

/-! ## The checker and the rules -/

-- The induction is on the syntax; sessions vary, since function bodies and branches are checked in
-- frames of their own and statements in what the ones before them leave.
mutual

/-- The checker decides every expression as the rules do. The induction is on the expression, in
every session. -/
theorem Expr.decided : ∀ (expr : Expr P) {session : Session},
    session.operators = OperatorTable.builtin → expr.Decided session
  | .boolean value span, session, _ => by
    refine .of_infers (fun _ => rfl) (fun h => by cases h; assumption) ?_
    exact ⟨fun h => by cases h; exact .boolean, fun h => by cases h; rfl⟩
  | .number value span, session, _ => by
    refine .of_infers (fun _ => rfl) (fun h => by cases h; assumption) ?_
    exact ⟨fun h => by cases h; exact .number, fun h => by cases h; rfl⟩
  | .string value span, session, _ => by
    refine .of_infers (fun _ => rfl) (fun h => by cases h; assumption) ?_
    exact ⟨fun h => by cases h; exact .string, fun h => by cases h; rfl⟩
  | .symbol name span, session, _ => .symbol name span
  | .operation op args span, session, hops =>
    .operation op span hops (fun _ _ => Expr.checkArgs_ok_iff args hops)
      (Expr.checkEqual_ok_iff args hops)
  | .call callee args span, session, hops =>
    .call span (callee.decided hops) fun _ _ => Expr.checkArgs_ok_iff args hops
  | .function params body span, session, hops =>
    .function span fun _ _ => body.check_ok_iff hops

/-- As many arguments as parameters are checked as the rules say. -/
theorem Expr.checkArgs_ok_iff : ∀ (args : List (Expr P)) {params : List Ty} {session : Session}
    {result : Unit}, session.operators = OperatorTable.builtin → args.length = params.length →
    (((Expr.checkArgs args params).run session).1 = .ok result ↔
      ChecksAll session.scope.context args params)
  | [], params, session, _, _, hlen => by
    cases params with
    | nil => exact ⟨fun _ => .nil, fun _ => rfl⟩
    | cons => simp at hlen
  | arg :: args, params, session, _, hops, hlen => by
    cases params with
    | nil => simp at hlen
    | cons param params =>
      unfold Expr.checkArgs
      rw [(arg.decided hops).agree_iff, Expr.checkArgs_ok_iff args hops (by simpa using hlen)]
      refine ⟨fun h => .cons h.1 h.2, fun h => ?_⟩
      cases h with
      | cons harg hargs => exact ⟨harg, hargs⟩

/-- Two operands of an equality are checked as the rules say: they have one type. -/
theorem Expr.checkEqual_ok_iff : ∀ (args : List (Expr P)) {session : Session} {result : Unit},
    session.operators = OperatorTable.builtin → args.length = 2 →
    (((Expr.checkEqual args).run session).1 = .ok result ↔
      ∃ left right type, args = [left, right] ∧ Infers session.scope.context left type ∧
        Checks session.scope.context right type)
  | [], session, _, _, hlen => by simp at hlen
  | left :: rest, session, _, hops, hlen => by
    unfold Expr.checkEqual
    have hrest {type : Ty} {result : Unit} :
        ((Expr.checkArgs rest [type]).run session).1 = .ok result ↔ _ :=
      Expr.checkArgs_ok_iff rest hops (by simpa using hlen)
    simp only [(left.typeFor_keeps none).bind_ok_iff, (left.decided hops).infers, hrest]
    refine ⟨?_, ?_⟩
    · intro h
      obtain ⟨type, hl, hr⟩ := h
      cases hr with
      | cons hr hnil =>
        cases hnil
        exact ⟨left, _, type, rfl, hl, hr⟩
    · intro h
      obtain ⟨_, right, type, heq, hl, hr⟩ := h
      cases heq
      exact ⟨type, hl, .cons hr .nil⟩

/-- A statement is checked as the rules say, and the types that it returns are those of the rules,
each once. -/
theorem Stmt.decided : ∀ (stmt : Stmt P) {session : Session},
    session.operators = OperatorTable.builtin → stmt.Decided session
  | .declare _ type value span, _, hops => .declare type span (value.decided hops)
  | .assign _ value span, _, hops => .assign span (value.decided hops)
  | .branch condition yes no span, _, hops =>
    .branch span (condition.decided hops) (fun _ => yes.check_ok_iff hops)
      fun _ => no.check_ok_iff hops
  | .loop condition body span, _, hops =>
    .loop span (condition.decided hops) fun _ => body.check_ok_iff hops
  | .returnValue value span, _, hops => .returnValue span (value.decided hops)
  | .returnVoid span, _, _ => .returnVoid span
  | .expression value span, _, hops => .expression span (value.decided hops)

/-- Statements yield the distinct ones of their returns, where the rules type them. -/
theorem Stmt.checkAll_ok_iff : ∀ (stmts : List (Stmt P)) {session : Session} {distinct : List Ty},
    session.operators = OperatorTable.builtin →
    ((∃ types, ((Stmt.checkAll stmts).run session).1 = .ok types ∧ Ty.dedup types = distinct) ↔
      ∃ returns, StmtsTyped session.scope.context stmts returns ∧ Ty.dedup returns = distinct)
  | [], session, distinct, _ => by
    refine ⟨?_, ?_⟩
    · intro h'
      obtain ⟨_, ⟨⟩, rfl⟩ := h'
      exact ⟨[], .nil, rfl⟩
    · intro h'
      obtain ⟨_, h, rfl⟩ := h'
      cases h
      exact ⟨[], rfl, rfl⟩
  | stmt :: rest, session, distinct, hops => by
    have hstmt {types : List Ty} : (stmt.check.run session).1 = .ok types ↔ _ :=
      stmt.decided hops _
    rcases stmt.check_binds session with ⟨fault, hr⟩ | ⟨types, hr, -⟩
    · simp only [hr] at hstmt
      rw [Stmt.checkAll_cons_error hr]
      refine ⟨nofun, fun ⟨_, h, _⟩ => ?_⟩
      cases h with
      | cons h _ => exact absurd (hstmt.2 ⟨_, h, rfl⟩) nofun
    · simp only [hr, Except.ok.injEq] at hstmt
      have hrest {found : List Ty} : (∃ more,
          ((Stmt.checkAll rest).run (session.bindAll [stmt])).1 = .ok more ∧
            Ty.dedup more = found) ↔ _ :=
        Stmt.checkAll_ok_iff rest hops
      rw [session.context_bindAll] at hrest
      rw [Stmt.checkAll_cons_run hr]
      refine ⟨?_, ?_⟩
      · intro h'
        obtain ⟨_, h, rfl⟩ := h'
        obtain ⟨more, hm, rfl⟩ := Outcome.map_eq_ok.1 h
        obtain ⟨returns, htyped, rfl⟩ := hstmt.1 rfl
        obtain ⟨later, hlater, hsame⟩ := hrest.1 ⟨more, hm, rfl⟩
        exact ⟨returns ++ later, .cons htyped hlater,
          Ty.dedup_append_congr (Ty.dedup_dedup _).symm hsame⟩
      · intro h'
        obtain ⟨_, h, rfl⟩ := h'
        cases h with
        | @cons _ _ _ returns later htyped hlater =>
          obtain ⟨more, hm, hsame⟩ := hrest.2 ⟨later, hlater, rfl⟩
          have htypes := hstmt.2 ⟨returns, htyped, rfl⟩
          refine ⟨types ++ more, Outcome.map_eq_ok.2 ⟨more, hm, rfl⟩,
            Ty.dedup_append_congr ?_ hsame⟩
          rw [htypes, Ty.dedup_dedup]

/-- A block yields the distinct ones of its returns, where the rules type it. -/
theorem Block.check_ok_iff : ∀ (block : Block P) {session : Session} {types : List Ty},
    session.operators = OperatorTable.builtin →
    ((block.check.run session).1 = .ok types ↔
      ∃ returns, BlockTyped session.scope.context block returns ∧ Ty.dedup returns = types)
  | .mk stmts span, session, types, hops => by
    have hstmts : (∃ found, ((Stmt.checkAll stmts).run session).1 = .ok found ∧
        Ty.dedup found = types) ↔ _ := Stmt.checkAll_ok_iff stmts hops
    rw [Block.check_run]
    refine ⟨?_, ?_⟩
    · intro h
      obtain ⟨found, hfound, hsingle⟩ := Outcome.bind_eq_ok.1 h
      obtain ⟨hsame, hlength⟩ := singleReturn_ok_iff.1 hsingle
      obtain ⟨returns, htyped, hreturns⟩ := hstmts.1 ⟨found, hfound, hsame⟩
      rw [← hreturns] at hlength
      exact ⟨returns, .block htyped (Ty.length_dedup_le_one_iff.1 hlength), hreturns⟩
    · intro h'
      obtain ⟨returns, h, hreturns⟩ := h'
      cases h with
      | block htyped hsame =>
        obtain ⟨found, hfound, hsingle⟩ := hstmts.2 ⟨returns, htyped, hreturns⟩
        refine Outcome.bind_eq_ok.2 ⟨found, hfound, singleReturn_ok_iff.2 ⟨hsingle, ?_⟩⟩
        rw [← hreturns]
        exact Ty.length_dedup_le_one_iff.2 hsame

end

/-- A program is accepted exactly if the rules derive it in the context of the scope. -/
theorem accepts_iff_derivable (scope : Scope) (program : Block P) :
    (∃ types, (program.check.run ⟨OperatorTable.builtin, scope⟩).1 = .ok types) ↔
      Derivable scope.context program := by
  refine ⟨?_, ?_⟩
  · intro h'
    obtain ⟨types, h⟩ := h'
    obtain ⟨returns, htyped, -⟩ := (program.check_ok_iff rfl).1 h
    exact ⟨returns, htyped⟩
  · intro h'
    obtain ⟨returns, htyped⟩ := h'
    exact ⟨_, (program.check_ok_iff rfl).2 ⟨returns, htyped, rfl⟩⟩

end LetWhile
