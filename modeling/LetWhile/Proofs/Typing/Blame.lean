import LetWhile.Proofs.Program.Nodes
import LetWhile.Proofs.Relocation.Sources
import LetWhile.Proofs.Scanning.Words
import LetWhile.Proofs.Typing.Adequacy

/-!
# What faults of typing are to blame on

The operators of the language take as many operands as they are written with
(`OperatorTable.builtin_complete`). So in a program that is read from tokens neither an operator that
is not known nor one with a wrong number of operands is a fault: a name that is not declared is an
identifier, and the arguments that are counted are those of a call (`Source.operators_agree`).
-/

namespace LetWhile

open Checking

variable {P : Type}

/-! ## Operators -/

/-- How many operands an operator of this type takes. -/
def OperatorType.arity : OperatorType → Nat
  | fixed params _ => params.length
  | equality => 2

/-- Every operator has a type, and takes as many operands as it is written with. -/
def OperatorTable.Complete (operators : OperatorTable) : Prop :=
  ∀ op, ∃ type, operators op = some type ∧ type.arity = op.arity

/-- Every built-in operator has a type with as many parameters as it has operands. -/
theorem OperatorTable.builtin_complete : builtin.Complete := by
  intro op
  cases op with
  | binary op => cases op <;> exact ⟨_, rfl, rfl⟩
  | prefixed op => cases op <;> exact ⟨_, rfl, rfl⟩

/-! ## Blame -/

/-- A fault of a name that is not declared is about an identifier among some words, and one of a
number of arguments comes from a call among some expressions, whose callee has a function type where
it is checked. -/
def Fault.Blamed (operators : OperatorTable) (word : Kind → String → Prop) (nodes : List (Expr P))
    (fault : Fault P) : Prop :=
  match fault.cause with
  | .notDeclared name => word .identifier name
  | .unexpectedArguments .. | .missingArguments .. =>
    ∃ callee args span params result, Expr.call callee args span ∈ nodes ∧
      (∃ session : Session, session.operators = operators ∧
        session.infer callee = .ok (.function params result)) ∧
      checkCount params.length args span = .error fault
  | _ => True

namespace Checking
variable {α β : Type} {operators : OperatorTable} {word : Kind → String → Prop}
  {nodes : List (Expr P)}

/-- Where the operators are the given ones, a step finds only faults that are to blame on one of the
words or on one of the expressions. -/
def Blames (operators : OperatorTable) (word : Kind → String → Prop) (nodes : List (Expr P))
    (step : Checking P α) : Prop :=
  ∀ session, session.operators = operators →
    ∀ fault, (step.run session).1 = .error fault → fault.Blamed operators word nodes

/-- A value is no fault. -/
theorem Blames.pure (a : α) : Blames operators word nodes (pure a) := fun _ _ _ h => by cases h

/-- A fault that is to blame may be thrown. -/
theorem Blames.throw {fault : Fault P} (h : fault.Blamed operators word nodes) :
    Blames (α := α) operators word nodes (throw fault) := fun _ _ _ he => by
  cases he
  exact h

/-- An outcome blames if each fault that it may be does. -/
theorem Blames.lift {outcome : Outcome P α}
    (h : ∀ fault, outcome = .error fault → fault.Blamed operators word nodes) :
    Blames operators word nodes (liftM outcome) := fun _ _ => h

/-- What follows a step may rely on what the step yields. -/
theorem Blames.bind {step : Checking P α} {next : α → Checking P β}
    (hk : step.KeepsOuter) (hs : Blames operators word nodes step)
    (hn : ∀ a, (∃ session, session.operators = operators ∧ (step.run session).1 = .ok a) →
      Blames operators word nodes (next a)) : Blames operators word nodes (step >>= next) := by
  intro session hops fault h
  have hstep := hs session hops
  have hkeeps := (hk session).1
  rw [run_bind] at h
  rcases hr : step.run session with ⟨found | a, after⟩
  · rw [hr] at h hstep
    cases h
    exact hstep _ rfl
  · rw [hr] at h hkeeps
    exact hn a ⟨session, hops, by rw [hr]⟩ after (hkeeps.trans hops) fault h

/-- A step that reads the session blames if it does in every session with the given operators. -/
theorem Blames.get_bind {next : Session → Checking P β}
    (hn : ∀ session, session.operators = operators → Blames operators word nodes (next session)) :
    Blames operators word nodes (get >>= next) := by
  intro session hops fault h
  rw [run_bind] at h
  exact hn session hops session hops fault h

/-- A step blames in a frame of its own as it does outside. -/
theorem Blames.inFrame {step : Checking P α} (h : Blames operators word nodes step) :
    Blames operators word nodes (inFrame step) := fun session hops => h session.enter hops

end Checking

/-! ## Parts -/

section
variable {operators : OperatorTable} {word : Kind → String → Prop} {nodes : List (Expr P)}

/-- A name that is declared twice is nothing to blame on a word. -/
theorem declare_blames (name : String) (type : Ty) (pos : P) :
    Blames operators word nodes (declare name type pos) := by
  intro session _ fault h
  rw [run_declare] at h
  split at h
  · cases h
    trivial
  · cases h

/-- Parameters of the same name are nothing to blame on a word. -/
theorem bindParams_blames (pos : P) : ∀ (names : List String) (types : List Ty),
    Blames operators word nodes (bindParams pos names types)
  | [], _ | _ :: _, [] => .pure _
  | name :: names, type :: types =>
    .bind (declare_keepsOuter name type pos) (declare_blames name type pos) fun _ _ =>
      bindParams_blames pos names types

/-- Types that do not agree are nothing to blame on a word. -/
theorem agree_blames (use : Use) (expected received : Ty) (pos : P) :
    Blames operators word nodes (agree use expected received pos) := by
  refine .lift fun fault h => ?_
  unfold agree at h
  split at h
  · cases h
  · cases h
    cases use <;> trivial

/-- A body with another type is nothing to blame on a word. -/
theorem checkResult_blames (pos : P) (expected : Ty) (returned : List Ty) :
    Blames operators word nodes (checkResult pos expected returned) := by
  refine .lift fun fault h => ?_
  unfold checkResult at h
  split at h
  · cases h
  · split at h
    · cases h
    · cases h
      trivial

/-- Several types that are returned are nothing to blame on a word. -/
theorem singleReturn_blames (pos : P) (types : List Ty) :
    Blames operators word nodes (singleReturn pos types) := by
  refine .lift fun fault h => ?_
  obtain ⟨several, rfl⟩ := singleReturn_error h
  trivial

/-- No number of arguments is wrong if it is the expected one. -/
theorem checkCount_blames_of_length {expected : Nat} {args : List (Expr P)}
    (h : args.length = expected) (span : Span P) :
    Blames operators word nodes (checkCount expected args span) := by
  refine .lift fun fault hfault => ?_
  rw [show checkCount expected args span = .ok ⟨⟩ from checkCount_ok_iff.2 h] at hfault
  cases hfault

/-- A count that is wrong is one of too many or one of too few arguments. -/
theorem checkCount_error {expected : Nat} {args : List (Expr P)} {span : Span P} {fault : Fault P}
    (h : checkCount expected args span = .error fault) :
    fault.cause = .unexpectedArguments expected args.length ∨
      fault.cause = .missingArguments expected args.length := by
  unfold checkCount at h
  split at h
  · cases h
    exact .inl rfl
  · split at h
    · cases h
      exact .inr rfl
    · cases h

/-- A number of arguments that is wrong for a call is to blame on the call. -/
theorem checkCount_blames_of_call {callee : Expr P} {args : List (Expr P)} {span : Span P}
    {params : List Ty} {result : Ty} (hmem : .call callee args span ∈ nodes)
    (hcallee : ∃ session : Session, session.operators = operators ∧
      session.infer callee = .ok (.function params result)) :
    Blames operators word nodes (checkCount params.length args span) := by
  refine .lift fun fault hfault => ?_
  have hblame : ∃ callee args span params result, Expr.call callee args span ∈ nodes ∧
      (∃ session : Session, session.operators = operators ∧
        session.infer callee = .ok (.function params result)) ∧
      checkCount params.length args span = .error fault :=
    ⟨callee, args, span, params, result, hmem, hcallee, hfault⟩
  unfold Fault.Blamed
  rcases checkCount_error hfault with hcause | hcause <;> rw [hcause] <;> exact hblame

/-! ## Expressions and blocks -/

-- The induction is on the syntax, along the recursion of the checker.
mutual

/-- Typing an expression that is drawn from words finds faults that are to blame on a word or on a
call. -/
theorem Expr.typeFor_blames (hops : operators.Complete) : ∀ (expr : Expr P) (wanted : Option Ty),
    expr.Drawn word → expr.nodes ⊆ nodes → Blames operators word nodes (expr.typeFor wanted)
  | .boolean .., _, _, _ | .number .., _, _, _ | .string .., _, _, _ => .pure _
  | .symbol name span, _, h, _ => by
    refine .get_bind fun session _ => ?_
    cases session.scope.find? name with
    | some type => exact .pure type
    | none => exact .throw h
  | .operation op args span, _, h, hn => by
    obtain ⟨type, htype, harity⟩ := hops op
    obtain ⟨-, hlength, hargs⟩ := h
    obtain ⟨-, hargNodes⟩ := List.cons_subset.1 hn
    refine .get_bind fun session hsession => ?_
    rw [hsession, htype]
    cases type with
    | equality =>
      exact .bind (Keeps.lift _).keepsOuter
        (checkCount_blames_of_length (hlength.trans harity.symm) span) fun _ _ =>
          .bind (Expr.checkEqual_keeps args).keepsOuter
            (Expr.checkEqual_blames hops args hargs hargNodes) fun _ _ => .pure _
    | fixed params result =>
      exact .bind (Keeps.lift _).keepsOuter
        (checkCount_blames_of_length (hlength.trans harity.symm) span) fun _ _ =>
          .bind (Expr.checkArgs_keeps args params).keepsOuter
            (Expr.checkArgs_blames hops args params hargs hargNodes) fun _ _ => .pure _
  | .call callee args span, _, h, hn => by
    obtain ⟨hmem, hn⟩ := List.cons_subset.1 hn
    obtain ⟨hcallee, hargs⟩ := List.append_subset.1 hn
    refine .bind (callee.typeFor_keeps none).keepsOuter
      (callee.typeFor_blames hops none h.1 hcallee) fun type htype => ?_
    cases type with
    | name => exact .throw trivial
    | function params result =>
      exact .bind (Keeps.lift _).keepsOuter (checkCount_blames_of_call hmem htype) fun _ _ =>
        .bind (Expr.checkArgs_keeps args params).keepsOuter
          (Expr.checkArgs_blames hops args params h.2 hargs) fun _ _ => .pure _
  | .function params body span, wanted, h, hn => by
    obtain ⟨-, hn⟩ := List.cons_subset.1 hn
    unfold Expr.typeFor
    split
    · exact .throw trivial
    · rename_i types result
      split
      · exact .throw trivial
      · have hparams := bindParams_keepsOuter (P := P) span.start params types
        refine .bind (hparams.bind fun _ => body.check_keepsOuter).inFrame.keepsOuter ?_
          fun _ _ => .bind (Keeps.lift _).keepsOuter (checkResult_blames _ _ _) fun _ _ => .pure _
        exact .inFrame (.bind hparams (bindParams_blames _ _ _) fun _ _ =>
          body.check_blames hops h.2 hn)
    · exact .throw trivial

/-- Checking arguments finds faults that are to blame on a word or on a call. -/
theorem Expr.checkArgs_blames (hops : operators.Complete) :
    ∀ (args : List (Expr P)) (params : List Ty), Expr.AllDrawn word args →
      Expr.allNodes args ⊆ nodes → Blames operators word nodes (Expr.checkArgs args params)
  | [], _, _, _ | _ :: _, [], _, _ => .pure _
  | arg :: args, param :: params, h, hn => by
    obtain ⟨harg, hargs⟩ := List.append_subset.1 hn
    exact .bind (arg.typeFor_keeps (some param)).keepsOuter
      (arg.typeFor_blames hops (some param) h.1 harg) fun _ _ =>
        .bind (Keeps.lift _).keepsOuter (agree_blames _ _ _ _) fun _ _ =>
          Expr.checkArgs_blames hops args params h.2 hargs

/-- Comparing two arguments finds faults that are to blame on a word or on a call. -/
theorem Expr.checkEqual_blames (hops : operators.Complete) : ∀ args : List (Expr P),
    Expr.AllDrawn word args → Expr.allNodes args ⊆ nodes →
      Blames operators word nodes (Expr.checkEqual args)
  | [], _, _ => .pure _
  | left :: rest, h, hn => by
    obtain ⟨hleft, hrest⟩ := List.append_subset.1 hn
    exact .bind (left.typeFor_keeps none).keepsOuter (left.typeFor_blames hops none h.1 hleft)
      fun type _ => Expr.checkArgs_blames hops rest [type] h.2 hrest

/-- Checking a statement finds faults that are to blame on a word or on a call. -/
theorem Stmt.check_blames (hops : operators.Complete) : ∀ stmt : Stmt P, stmt.Drawn word →
    stmt.nodes ⊆ nodes → Blames operators word nodes stmt.check
  | .declare name type value span, h, hn => by
    refine .get_bind fun session _ => ?_
    split
    · exact .throw trivial
    · exact .bind (value.typeFor_keeps (some type)).keepsOuter
        (value.typeFor_blames hops (some type) h.2.2 hn) fun _ _ =>
          .bind (Keeps.lift _).keepsOuter (agree_blames _ _ _ _) fun _ _ =>
            .bind (declare_keepsOuter _ _ _) (declare_blames _ _ _) fun _ _ => .pure _
  | .assign name value span, h, hn => by
    refine .get_bind fun session _ => ?_
    cases session.scope.find? name with
    | none => exact .throw h.1
    | some type =>
      exact .bind (value.typeFor_keeps (some type)).keepsOuter
        (value.typeFor_blames hops (some type) h.2 hn) fun _ _ =>
          .bind (Keeps.lift _).keepsOuter (agree_blames _ _ _ _) fun _ _ => .pure _
  | .branch condition yes no _, h, hn => by
    obtain ⟨hcondition, hn⟩ := List.append_subset.1 hn
    obtain ⟨hyes, hno⟩ := List.append_subset.1 hn
    exact .bind (condition.typeFor_keeps (some Ty.bool)).keepsOuter
      (condition.typeFor_blames hops (some Ty.bool) h.1 hcondition) fun _ _ =>
        .bind (Keeps.lift _).keepsOuter (agree_blames _ _ _ _) fun _ _ =>
          .bind yes.check_keepsOuter.inFrame.keepsOuter
            (.inFrame (yes.check_blames hops h.2.1 hyes)) fun _ _ =>
              .bind no.check_keepsOuter.inFrame.keepsOuter
                (.inFrame (no.check_blames hops h.2.2 hno)) fun _ _ => .pure _
  | .loop condition body _, h, hn => by
    obtain ⟨hcondition, hbody⟩ := List.append_subset.1 hn
    exact .bind (condition.typeFor_keeps (some Ty.bool)).keepsOuter
      (condition.typeFor_blames hops (some Ty.bool) h.1 hcondition) fun _ _ =>
        .bind (Keeps.lift _).keepsOuter (agree_blames _ _ _ _) fun _ _ =>
          .inFrame (body.check_blames hops h.2 hbody)
  | .returnValue value _, h, hn =>
    .bind (value.typeFor_keeps none).keepsOuter (value.typeFor_blames hops none h hn)
      fun _ _ => .pure _
  | .returnVoid _, _, _ => .pure _
  | .expression value _, h, hn =>
    .bind (value.typeFor_keeps none).keepsOuter (value.typeFor_blames hops none h hn)
      fun _ _ => .pure _

/-- Checking statements finds faults that are to blame on a word or on a call. -/
theorem Stmt.checkAll_blames (hops : operators.Complete) : ∀ stmts : List (Stmt P),
    Stmt.AllDrawn word stmts → Stmt.allNodes stmts ⊆ nodes →
      Blames operators word nodes (Stmt.checkAll stmts)
  | [], _, _ => .pure _
  | stmt :: rest, h, hn => by
    obtain ⟨hstmt, hrest⟩ := List.append_subset.1 hn
    exact .bind stmt.check_binds.keepsOuter (stmt.check_blames hops h.1 hstmt) fun _ _ =>
      .bind (Stmt.checkAll_keepsOuter rest) (Stmt.checkAll_blames hops rest h.2 hrest)
        fun _ _ => .pure _

/-- Checking a block finds faults that are to blame on a word or on a call. -/
theorem Block.check_blames (hops : operators.Complete) : ∀ block : Block P, block.Drawn word →
    block.nodes ⊆ nodes → Blames operators word nodes block.check
  | .mk stmts _, h, hn =>
    .bind (Stmt.checkAll_keepsOuter stmts) (Stmt.checkAll_blames hops stmts h hn) fun _ _ =>
      singleReturn_blames _ _

end

end

/-! ## Programs of sources -/

/-- The name of an operator is no word, for its symbol is none. -/
theorem Operator.ne_name_of_isWord {begins : Char → Bool} {name : String} (h : IsWord begins name)
    (op : Operator) : name ≠ op.name := by
  have hname : op.name.toList.all Lexeme.isNameChar = false := by
    cases op with
    | binary op => cases op <;> decide
    | prefixed op => cases op <;> decide
  rintro rfl
  exact Bool.false_ne_true (hname.symm.trans (List.all_eq_true.2 h.chars))

/-- The parser and the operators of the language agree about how many operands an operator has. So
wherever a program that a source spells is checked with these operators, a name that is not declared
is an identifier of the source and not the name of an operator, and a wrong number of arguments is
that of a call, whose callee is an expression. -/
theorem Source.operators_agree {source : Source} {limit : Nat} {program : Block Position}
    (h : source.program limit = .ok program) :
    (∀ op args span, Expr.operation op args span ∈ program.nodes → args.length = op.arity ∧
      ∃ type, OperatorTable.builtin op = some type ∧ type.arity = op.arity) ∧
    ∃ tokens, source.tokens = .ok tokens ∧
      ∀ session : Session, session.operators = OperatorTable.builtin →
        ∀ fault, (session.run program).2 = .error fault →
          (∀ name, fault.cause = .notDeclared name →
            (∃ token ∈ tokens, token.kind = .identifier ∧ token.text = name) ∧
              ∀ op : Operator, name ≠ op.name) ∧
          ∀ expected received, fault.cause = .unexpectedArguments expected received ∨
              fault.cause = .missingArguments expected received →
            ∃ callee args span params result, Expr.call callee args span ∈ program.nodes ∧
              (∃ inner : Session, inner.operators = OperatorTable.builtin ∧
                inner.infer callee = .ok (.function params result)) ∧
              checkCount params.length args span = .error fault := by
  obtain ⟨tokens, htokens, hprogram⟩ := Outcome.bind_eq_ok.1 h
  let word : Kind → String → Prop := fun kind text =>
    ∃ token ∈ tokens, token.kind = kind ∧ token.text = text
  have hword : WellSpelled word := by
    rintro _ _ ⟨token, htoken, rfl, rfl⟩
    exact Source.tokens_spelled htokens token htoken
  have hdrawn : program.Drawn word :=
    Block.ofTokens_drawn hword (fun token htoken => ⟨token, htoken, rfl, rfl⟩) hprogram
  refine ⟨fun op args span hmem => ⟨(hdrawn.of_mem_nodes hmem).2.1,
    OperatorTable.builtin_complete op⟩, tokens, htokens, fun session hsession fault hfault => ?_⟩
  have hblamed := program.check_blames OperatorTable.builtin_complete hdrawn
    (List.Subset.refl _) session hsession fault hfault
  refine ⟨fun name hcause => ?_, fun expected received hcause => ?_⟩
  · unfold Fault.Blamed at hblamed
    rw [hcause] at hblamed
    obtain ⟨token, htoken, hkind, rfl⟩ := hblamed
    have hadmits := Source.tokens_admitted htokens token htoken
    rw [Token.Drawn, hkind] at hadmits
    exact ⟨⟨token, htoken, hkind, rfl⟩, Operator.ne_name_of_isWord hadmits⟩
  · unfold Fault.Blamed at hblamed
    rcases hcause with hcause | hcause <;> rw [hcause] at hblamed <;> exact hblamed

/-- An operand that calls a function of one parameter without an argument. -/
theorem Source.operators_agree_uncounted :
    let source : Source := ⟨"f() + 1;", "demo.let"⟩
    let session : Session := ⟨OperatorTable.builtin, ⟨[("f", .function [Ty.int] Ty.int)], []⟩⟩
    ∃ program fault, source.program 4 = .ok program ∧
      (session.run program).2 = .error fault ∧ fault.cause = .missingArguments 1 0 ∧
      ∃ callee args span params result, Expr.call callee args span ∈ program.nodes ∧
        (∃ inner : Session, inner.operators = OperatorTable.builtin ∧
          inner.infer callee = .ok (.function params result)) ∧
        checkCount params.length args span = .error fault := by
  intro source session
  let place := source.place
  have htokens : source.tokens = .ok
      [⟨.identifier, "f", ⟨place 0, place 1⟩⟩, ⟨.opening .paren, "(", ⟨place 1, place 2⟩⟩,
        ⟨.closing .paren, ")", ⟨place 2, place 3⟩⟩, ⟨.operator, "+", ⟨place 4, place 5⟩⟩,
        ⟨.number, "1", ⟨place 6, place 7⟩⟩, ⟨.semicolon, ";", ⟨place 7, place 8⟩⟩] := by
    decide +kernel
  have hprogram : source.program 4 = .ok
      (.mk [.expression (.operation (.binary .plus)
        [.call (.symbol "f" ⟨place 0, place 1⟩) [] ⟨place 0, place 3⟩,
          .number 1 ⟨place 6, place 7⟩] ⟨place 0, place 7⟩) ⟨place 0, place 8⟩]
        ⟨place 0, place 8⟩) := by
    rw [Source.program_eq htokens]
    cbv
  obtain ⟨-, tokens, -, hfaults⟩ := Source.operators_agree hprogram
  have hcall := (hfaults session rfl ⟨.missingArguments 1 0, place 3⟩ rfl).2 1 0 (.inr rfl)
  exact ⟨_, _, hprogram, rfl, rfl, hcall⟩

end LetWhile
