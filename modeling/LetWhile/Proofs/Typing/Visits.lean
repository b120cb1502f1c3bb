import LetWhile.Proofs.Typing.Adequacy

/-!
# The blocks that checking gets through

A block is done when its statements are checked and its returns are found to agree, so the blocks
of a program are done in the order `Block.blocks`, those inside a block before it. `Block.visits`
says in which session each is checked. A check that yields a result gets through all of them, and
one that finds several return types stops at the block that returns them (`Block.check_traced`).
-/

namespace LetWhile

open Checking

variable {P : Type}

/-! ## Blocks -/

mutual

/-- The blocks in an expression. -/
def Expr.blocks : Expr P → List (Block P)
  | .boolean .. | .number .. | .string .. | .symbol .. => []
  | .operation _ args _ => Expr.allBlocks args
  | .call callee args _ => callee.blocks ++ Expr.allBlocks args
  | .function _ body _ => body.blocks

/-- The blocks in several expressions. -/
def Expr.allBlocks : List (Expr P) → List (Block P)
  | [] => []
  | expr :: rest => expr.blocks ++ Expr.allBlocks rest

/-- The blocks in a statement. -/
def Stmt.blocks : Stmt P → List (Block P)
  | .declare _ _ value _ | .assign _ value _ | .returnValue value _ | .expression value _ =>
    value.blocks
  | .branch condition yes no _ => condition.blocks ++ (yes.blocks ++ no.blocks)
  | .loop condition body _ => condition.blocks ++ body.blocks
  | .returnVoid _ => []

/-- The blocks in several statements. -/
def Stmt.allBlocks : List (Stmt P) → List (Block P)
  | [] => []
  | stmt :: rest => stmt.blocks ++ Stmt.allBlocks rest

/-- A block and the blocks in it, which come first. -/
def Block.blocks : Block P → List (Block P)
  | .mk stmts span => Stmt.allBlocks stmts ++ [.mk stmts span]

end

/-! ## Visits -/

/-- A block and the session that it is checked in. -/
structure Visit (P : Type) where
  session : Session
  block : Block P

/-- The session of a function body: the names in its frame are the parameters. -/
def Session.enterFunction (session : Session) (params : List String) (types : List Ty) : Session :=
  ⟨session.operators, session.scope.enter (params.zip types).reverse⟩

mutual

/-- The blocks in an expression of which a type is wanted. Function literals are only checked
against a type that has parameters. -/
def Expr.visits (session : Session) (wanted : Option Ty) : Expr P → List (Visit P)
  | .boolean .. | .number .. | .string .. | .symbol .. => []
  | .operation op args _ =>
    match session.operators op with
    | none => []
    | some .equality => Expr.equalVisits session args
    | some (.fixed params _) => Expr.argVisits session args params
  | .call callee args _ =>
    callee.visits session none ++
      match session.infer callee with
      | .ok (.function params _) => Expr.argVisits session args params
      | _ => []
  | .function params body _ =>
    match wanted with
    | some (.function types _) => body.visits (session.enterFunction params types)
    | _ => []

/-- The blocks in arguments for the given parameters. -/
def Expr.argVisits (session : Session) : List (Expr P) → List Ty → List (Visit P)
  | arg :: args, param :: params =>
    arg.visits session (some param) ++ Expr.argVisits session args params
  | _, _ => []

/-- The blocks in two arguments of the same type. -/
def Expr.equalVisits (session : Session) : List (Expr P) → List (Visit P)
  | left :: rest =>
    left.visits session none ++
      match session.infer left with
      | .ok type => Expr.argVisits session rest [type]
      | .error _ => []
  | [] => []

/-- The blocks in a statement. -/
def Stmt.visits (session : Session) : Stmt P → List (Visit P)
  | .declare _ type value _ => value.visits session (some type)
  | .assign name value _ => value.visits session (session.scope.find? name)
  | .branch condition yes no _ =>
    condition.visits session (some Ty.bool) ++
      (yes.visits session.enter ++ no.visits session.enter)
  | .loop condition body _ =>
    condition.visits session (some Ty.bool) ++ body.visits session.enter
  | .returnValue value _ | .expression value _ => value.visits session none
  | .returnVoid _ => []

/-- The blocks in several statements, each in the session with the names declared before it. -/
def Stmt.allVisits (session : Session) : List (Stmt P) → List (Visit P)
  | [] => []
  | stmt :: rest => stmt.visits session ++ Stmt.allVisits (session.bindAll [stmt]) rest

/-- A block and the blocks in it, in the order of `Block.blocks`. -/
def Block.visits (session : Session) : Block P → List (Visit P)
  | .mk stmts span => Stmt.allVisits session stmts ++ [⟨session, .mk stmts span⟩]

end

/-- The block is well typed where it is checked. -/
def Visit.Passes (visit : Visit P) : Prop :=
  ∃ types, (visit.block.check.run visit.session).1 = .ok types

/-- The statements of the block are well typed where it is checked, but return several types. -/
structure Visit.Fails (visit : Visit P) (several : List Ty) (pos : P) : Prop where
  stmts : ∃ types, ((Stmt.checkAll visit.block.stmts).run visit.session).1 = .ok types
  block : (visit.block.check.run visit.session).1 = .error ⟨.severalReturnTypes several, pos⟩

/-! ## Steps that find no several return types -/

namespace Checking
variable {α β : Type}

/-- A step that never finds several return types. -/
def Quiet (step : Checking P α) : Prop :=
  ∀ session several pos, (step.run session).1 ≠ .error ⟨.severalReturnTypes several, pos⟩

/-- A value is no fault. -/
theorem Quiet.pure (a : α) : Quiet (P := P) (pure a) := fun _ _ _ h => by cases h

/-- A fault with another cause may be thrown. -/
theorem Quiet.throw {fault : Fault P} (h : ∀ several, fault.cause ≠ .severalReturnTypes several) :
    Quiet (α := α) (throw fault) := fun _ several _ he => by
  cases he
  exact h several rfl

/-- An outcome that is no such fault is none as a step. -/
theorem Quiet.lift {outcome : Outcome P α}
    (h : ∀ several pos, outcome ≠ .error ⟨.severalReturnTypes several, pos⟩) :
    Quiet (liftM outcome : Checking P α) := fun _ => h

/-- Steps that never find several return types find none one after another. -/
theorem Quiet.bind {step : Checking P α} {next : α → Checking P β} (hs : step.Quiet)
    (hn : ∀ a, (next a).Quiet) : (step >>= next).Quiet := by
  intro session several pos h
  have hstep := hs session several pos
  rw [run_bind] at h
  rcases hr : step.run session with ⟨fault | a, after⟩
  · rw [hr] at h hstep
    cases h
    exact hstep rfl
  · rw [hr] at h
    exact hn a after several pos h

/-- Declaring a name finds no return types. -/
theorem declare_quiet (name : String) (type : Ty) (pos : P) : (declare name type pos).Quiet := by
  intro session several other h
  rw [run_declare] at h
  split at h <;> cases h

end Checking

/-- Counting arguments finds no return types. -/
theorem checkCount_quiet (expected : Nat) (args : List (Expr P)) (span : Span P) :
    Quiet (liftM (checkCount expected args span) : Checking P Unit) := by
  refine .lift fun several pos h => ?_
  unfold checkCount at h
  split at h
  · cases h
  · split at h <;> cases h

/-- Comparing two types finds no return types. -/
theorem agree_quiet (use : Use) (expected received : Ty) (pos : P) :
    Quiet (liftM (agree use expected received pos) : Checking P Unit) := by
  refine .lift fun several other h => ?_
  unfold agree at h
  split at h
  · cases h
  · cases use <;> cases h

/-- Comparing the type of a body finds one return type at most. -/
theorem checkResult_quiet (pos : P) (expected : Ty) (returned : List Ty) :
    Quiet (liftM (checkResult pos expected returned) : Checking P Unit) := by
  refine .lift fun several other h => ?_
  unfold checkResult at h
  split at h
  · cases h
  · split at h <;> cases h

/-- Binding parameters finds no return types. -/
theorem bindParams_quiet (pos : P) :
    ∀ (names : List String) (types : List Ty), (bindParams pos names types).Quiet
  | [], _ | _ :: _, [] => Quiet.pure _
  | name :: names, type :: types =>
    (declare_quiet name type pos).bind fun _ => bindParams_quiet pos names types

/-! ## Traces -/

/-- What a check yields goes with the blocks to visit: a result if all of them pass, and several
return types if one fails for them, with all that are visited before it passing. In the first case
the visits are to all the blocks there are, and in the second they leave none out up to there. -/
structure Traced {α : Type} (outcome : Outcome P α) (visits : List (Visit P))
    (blocks : List (Block P)) : Prop where
  passed : ∀ a, outcome = .ok a →
    (∀ visit ∈ visits, visit.Passes) ∧ visits.map Visit.block = blocks
  failed : ∀ several pos, outcome = .error ⟨.severalReturnTypes several, pos⟩ →
    ∃ before visit after, visits = before ++ visit :: after ∧
      (∀ other ∈ before, other.Passes) ∧ visit.Fails several pos ∧
      (before ++ [visit]).map Visit.block <+: blocks

namespace Traced
variable {α β : Type} {visits more : List (Visit P)} {blocks moreBlocks : List (Block P)}

/-- Nothing is visited where there is no block. -/
theorem nil {outcome : Outcome P α}
    (h : ∀ several pos, outcome ≠ .error ⟨.severalReturnTypes several, pos⟩) :
    Traced outcome [] [] :=
  ⟨fun _ _ => ⟨List.forall_mem_nil _, rfl⟩, fun several pos he => absurd he (h several pos)⟩

/-- After any other fault it does not matter which blocks there are. -/
theorem throw {fault : Fault P} {session : Session}
    (h : ∀ several, fault.cause ≠ .severalReturnTypes several) :
    Traced ((throw fault : Checking P α).run session).1 visits blocks :=
  ⟨fun _ he => (by cases he), fun several pos he => absurd he (Quiet.throw h session several pos)⟩

/-- The visits of what is checked first come first. -/
theorem append {outcome : Outcome P α} {next : α → Outcome P β} (h : Traced outcome visits blocks)
    (hn : ∀ a, outcome = .ok a → Traced (next a) more moreBlocks) :
    Traced (outcome >>= next) (visits ++ more) (blocks ++ moreBlocks) := by
  cases outcome with
  | error fault =>
    refine ⟨fun _ he => (by cases he), fun several pos he => ?_⟩
    cases he
    obtain ⟨before, visit, after, rfl, hbefore, hfails, hprefix⟩ := h.failed several pos rfl
    exact ⟨before, visit, after ++ more, by simp, hbefore, hfails,
      hprefix.trans (List.prefix_append _ _)⟩
  | ok a =>
    obtain ⟨hpasses, rfl⟩ := h.passed a rfl
    refine ⟨fun b hb => ?_, fun several pos he => ?_⟩
    · obtain ⟨hmore, rfl⟩ := (hn a rfl).passed b hb
      exact ⟨List.forall_mem_append.2 ⟨hpasses, hmore⟩, List.map_append⟩
    · obtain ⟨before, visit, after, rfl, hbefore, hfails, hprefix⟩ :=
        (hn a rfl).failed several pos he
      refine ⟨visits ++ before, visit, after, by simp,
        List.forall_mem_append.2 ⟨hpasses, hbefore⟩, hfails, ?_⟩
      rw [List.append_assoc, List.map_append]
      exact (List.prefix_append_right_inj _).2 hprefix

variable {step : Checking P α} {next : α → Checking P β} {session : Session}

/-- Steps that keep the session are traced one after another, and the visits of the first come
first. -/
theorem bind (hs : step.Keeps) (h : Traced (step.run session).1 visits blocks)
    (hn : ∀ a, (step.run session).1 = .ok a → Traced ((next a).run session).1 more moreBlocks) :
    Traced ((step >>= next).run session).1 (visits ++ more) (blocks ++ moreBlocks) := by
  have hrun : ((step >>= next).run session).1 =
      (step.run session).1 >>= fun a => ((next a).run session).1 := by
    have hkeep := hs session
    rw [run_bind]
    rcases hr : step.run session with ⟨_ | a, after⟩
    · rfl
    · rw [hr] at hkeep
      cases hkeep
      rfl
  rw [hrun]
  exact h.append hn

/-- A quiet step comes before the blocks that are visited. -/
theorem after_quiet (hs : step.Keeps) (hq : step.Quiet)
    (hn : ∀ a, (step.run session).1 = .ok a → Traced ((next a).run session).1 visits blocks) :
    Traced ((step >>= next).run session).1 visits blocks :=
  bind hs (nil (hq session)) hn

/-- A quiet step comes after the blocks that are visited. -/
theorem then_quiet (hs : step.Keeps) (h : Traced (step.run session).1 visits blocks)
    (hq : ∀ a, (next a).Quiet) : Traced ((step >>= next).run session).1 visits blocks := by
  simpa using bind hs h fun a _ => nil (hq a session)

end Traced

/-- The parameters are the names in the frame that the body of a function is checked in. -/
theorem Traced.inFunction {α : Type} {pos : P} {params : List String} {types : List Ty}
    (hlen : params.length = types.length) {body : Checking P α} {session : Session}
    {visits : List (Visit P)} {blocks : List (Block P)}
    (h : Traced (body.run (session.enterFunction params types)).1 visits blocks) :
    Traced ((Checking.inFrame do
      bindParams pos params types
      body).run session).1 visits blocks := by
  have hquiet := bindParams_quiet pos params types session.enter
  rw [run_inFrame, run_bind]
  rcases hr : (bindParams pos params types).run session.enter with ⟨fault | _, after⟩
  · rw [hr] at hquiet
    refine ⟨fun _ he => (by cases he), fun several other he => ?_⟩
    cases he
    exact absurd rfl (hquiet several other)
  · obtain ⟨-, -, rfl⟩ := (bindParams_ok_iff hlen).1 hr
    simpa [Session.enter, Scope.enter, Session.enterFunction] using h

/-- A statement is followed in the session with its name, where it yields a result. -/
theorem Stmt.checkAll_cons_outcome (stmt : Stmt P) (rest : List (Stmt P)) (session : Session) :
    ((Stmt.checkAll (stmt :: rest)).run session).1 = (do
      let types ← (stmt.check.run session).1
      let more ← ((Stmt.checkAll rest).run (session.bindAll [stmt])).1
      .ok (types ++ more)) := by
  rcases stmt.check_binds session with ⟨fault, hr⟩ | ⟨types, hr, -⟩
  · rw [Stmt.checkAll_cons_error hr, hr]
    rfl
  · rw [Stmt.checkAll_cons_run hr, hr]
    rfl

-- The induction is on the syntax; the session varies as in the definition of the visits.
mutual

/-- The visits of an expression trace how it is typed. The induction is on the expression, in every
session. -/
theorem Expr.typeFor_traced : ∀ (expr : Expr P) (wanted : Option Ty) (session : Session),
    Traced ((expr.typeFor wanted).run session).1 (expr.visits session wanted) expr.blocks
  | .boolean .., _, _ | .number .., _, _ | .string .., _, _ => .nil (Quiet.pure _ _)
  | .symbol name span, wanted, session => by
    unfold Expr.typeFor
    rw [run_bind, run_get]
    simp only
    cases session.scope.find? name with
    | none => exact .throw nofun
    | some type => exact .nil (Quiet.pure _ _)
  | .operation op args span, wanted, session => by
    unfold Expr.typeFor Expr.visits
    rw [run_bind, run_get]
    simp only
    cases session.operators op with
    | none => exact .throw nofun
    | some opType =>
      cases opType with
      | equality =>
        exact .after_quiet (Keeps.lift _) (checkCount_quiet _ _ _) fun _ hcount =>
          .then_quiet (Expr.checkEqual_keeps args)
            (Expr.checkEqual_traced args session (checkCount_ok_iff.1 hcount)) fun _ => Quiet.pure _
      | fixed params result =>
        exact .after_quiet (Keeps.lift _) (checkCount_quiet _ _ _) fun _ hcount =>
          .then_quiet (Expr.checkArgs_keeps args params)
            (Expr.checkArgs_traced args params session (checkCount_ok_iff.1 hcount))
            fun _ => Quiet.pure _
  | .call callee args span, wanted, session => by
    unfold Expr.typeFor Expr.visits
    refine .bind (callee.typeFor_keeps none) (callee.typeFor_traced none session)
      fun type htype => ?_
    rw [show session.infer callee = .ok type from htype]
    cases type with
    | name => exact .throw nofun
    | function params result =>
      exact .after_quiet (Keeps.lift _) (checkCount_quiet _ _ _) fun _ hcount =>
        .then_quiet (Expr.checkArgs_keeps args params)
          (Expr.checkArgs_traced args params session (checkCount_ok_iff.1 hcount))
          fun _ => Quiet.pure _
  | .function params body span, wanted, session => by
    unfold Expr.typeFor Expr.visits
    match wanted with
    | none => exact .throw nofun
    | some (.name _) => exact .throw nofun
    | some (.function types result) =>
      simp only
      split
      · exact .throw nofun
      · rename_i hlen
        refine .then_quiet (KeepsOuter.inFrame ?_) ?_ fun returned =>
          (checkResult_quiet _ _ _).bind fun _ => Quiet.pure _
        · exact (bindParams_keepsOuter span.start params types).bind fun _ => body.check_keepsOuter
        · exact .inFunction (not_not.1 hlen).symm (body.check_traced _)

/-- The visits of arguments trace how they are checked. -/
theorem Expr.checkArgs_traced : ∀ (args : List (Expr P)) (params : List Ty) (session : Session),
    args.length = params.length →
    Traced ((Expr.checkArgs args params).run session).1 (Expr.argVisits session args params)
      (Expr.allBlocks args)
  | [], [], _, _ => .nil (Quiet.pure _ _)
  | arg :: args, _ :: params, session, h =>
    .bind (arg.typeFor_keeps _) (arg.typeFor_traced _ session) fun _ _ =>
      .after_quiet (Keeps.lift _) (agree_quiet _ _ _ _) fun _ _ =>
        Expr.checkArgs_traced args params session (Nat.succ.inj h)

/-- The visits of operands trace how they are checked. -/
theorem Expr.checkEqual_traced : ∀ (args : List (Expr P)) (session : Session), args.length = 2 →
    Traced ((Expr.checkEqual args).run session).1 (Expr.equalVisits session args)
      (Expr.allBlocks args)
  | left :: rest, session, h => by
    unfold Expr.checkEqual Expr.equalVisits
    refine .bind (left.typeFor_keeps none) (left.typeFor_traced none session) fun type htype => ?_
    rw [show session.infer left = .ok type from htype]
    exact Expr.checkArgs_traced rest [type] session (Nat.succ.inj h)

/-- The visits of a statement trace how it is checked. -/
theorem Stmt.check_traced : ∀ (stmt : Stmt P) (session : Session),
    Traced (stmt.check.run session).1 (stmt.visits session) stmt.blocks
  | .declare name type value span, session => by
    unfold Stmt.check
    rw [run_bind, run_get]
    simp only
    split
    · exact .throw nofun
    · exact .then_quiet (value.typeFor_keeps _) (value.typeFor_traced _ session) fun _ =>
        (agree_quiet _ _ _ _).bind fun _ => (declare_quiet _ _ _).bind fun _ => Quiet.pure _
  | .assign name value span, session => by
    unfold Stmt.check Stmt.visits
    rw [run_bind, run_get]
    simp only
    cases session.scope.find? name with
    | none => exact .throw nofun
    | some type =>
      exact .then_quiet (value.typeFor_keeps _) (value.typeFor_traced _ session) fun _ =>
        (agree_quiet _ _ _ _).bind fun _ => Quiet.pure _
  | .branch condition yes no _, session =>
    .bind (condition.typeFor_keeps _) (condition.typeFor_traced _ session) fun _ _ =>
      .after_quiet (Keeps.lift _) (agree_quiet _ _ _ _) fun _ _ =>
        .bind yes.check_keepsOuter.inFrame (yes.check_traced session.enter) fun _ _ =>
          .then_quiet no.check_keepsOuter.inFrame (no.check_traced session.enter) fun _ =>
            Quiet.pure _
  | .loop condition body _, session =>
    .bind (condition.typeFor_keeps _) (condition.typeFor_traced _ session) fun _ _ =>
      .after_quiet (Keeps.lift _) (agree_quiet _ _ _ _) fun _ _ => body.check_traced session.enter
  | .returnValue value _, session | .expression value _, session =>
    .then_quiet (value.typeFor_keeps none) (value.typeFor_traced none session) fun _ => Quiet.pure _
  | .returnVoid _, _ => .nil (Quiet.pure _ _)

/-- The visits of statements trace how they are checked, each in the session that the ones before
leave. -/
theorem Stmt.checkAll_traced : ∀ (stmts : List (Stmt P)) (session : Session),
    Traced ((Stmt.checkAll stmts).run session).1 (Stmt.allVisits session stmts)
      (Stmt.allBlocks stmts)
  | [], _ => .nil (Quiet.pure _ _)
  | stmt :: rest, session => by
    rw [Stmt.checkAll_cons_outcome]
    refine .append (stmt.check_traced session) fun types _ => ?_
    simpa using (Stmt.checkAll_traced rest (session.bindAll [stmt])).append
      fun more _ => .nil (Quiet.pure (types ++ more) session)

/-- A block that yields a result passes with all blocks in it, and one that yields several return
types fails for them itself, or a block in it does. -/
theorem Block.check_traced : ∀ (block : Block P) (session : Session),
    Traced (block.check.run session).1 (block.visits session) block.blocks
  | .mk stmts span, session => by
    have hrun := (Block.mk stmts span).check_run session
    rw [hrun]
    refine .append (Stmt.checkAll_traced stmts session) fun types htypes => ⟨?_, ?_⟩
    · intro distinct hdistinct
      refine ⟨List.forall_mem_singleton.2 ⟨distinct, ?_⟩, rfl⟩
      rw [hrun]
      exact Outcome.bind_eq_ok.2 ⟨types, htypes, hdistinct⟩
    · intro several pos hseveral
      refine ⟨[], ⟨session, .mk stmts span⟩, [], rfl, List.forall_mem_nil _, ⟨⟨types, htypes⟩, ?_⟩,
        List.prefix_rfl⟩
      rw [hrun]
      exact (congrArg (· >>= singleReturn span.start) htypes).trans hseveral

end

end LetWhile
