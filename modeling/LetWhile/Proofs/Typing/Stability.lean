import LetWhile.Program.Text
import LetWhile.Proofs.Typing.FreeNames
import LetWhile.Proofs.Typing.Sessions
import LetWhile.Source
import Mathlib.Control.Monad.Basic

/-!
# Types that stay

An expression that has a type has types for all its free names (`Expr.knows_of_typeFor`). So it has
the same type in every session with the same operators that gives these names the types they had,
whatever else has been declared since (`Session.Later.typeFor`). The names of a program are never
given another type, so what is typed at its top level stays typed when the whole program has been
checked (`Source.typing_stable`).
-/

namespace LetWhile

open Checking

variable {P : Type}

/-! ## Names that are known -/

/-- A name has a type in a session. -/
def Session.Knows (session : Session) (name : String) : Prop :=
  ∃ type, session.scope.find? name = some type

namespace Session
variable {session : Session} {name : String}

/-- What is known after a statement was known before, unless the statement declares it. -/
theorem Knows.of_bindAll {stmt : Stmt P} (hname : ¬ stmt.Declares name)
    (h : (session.bindAll [stmt]).Knows name) : session.Knows name := by
  rw [Knows, find?_bindAll hname] at h
  exact h

/-- What is known inside a function is known outside, unless it is a parameter. -/
theorem Knows.of_enterFunction {params : List String} {types : List Ty}
    (hlen : params.length = types.length) (hname : name ∉ params)
    (h : (session.enterFunction params types).Knows name) : session.Knows name := by
  have hlookup : (params.zip types).reverse.lookup name = none := by
    rwa [← Option.not_isSome_iff_eq_none, lookup_params_isSome_iff hlen]
  rw [Knows, enterFunction, Scope.find?_enter, hlookup, Option.none_or] at h
  exact h

end Session

-- The induction is on the syntax, along the recursion of the checker: a check that yields a result
-- has got through all parts.
mutual

/-- An expression that has a type has types for its free names. -/
theorem Expr.knows_of_typeFor {name : String} : ∀ (expr : Expr P) (wanted : Option Ty)
    (session : Session) {type : Ty}, ((expr.typeFor wanted).run session).1 = .ok type →
      expr.Free name → session.Knows name
  | .symbol other span, _, session, _, h, hname => by
    obtain rfl : other = name := hname
    unfold Expr.typeFor at h
    rw [run_bind, run_get] at h
    simp only at h
    cases hfind : session.scope.find? other with
    | none =>
      rw [hfind] at h
      cases h
    | some found => exact ⟨found, hfind⟩
  | .operation op args span, _, session, _, h, hname => by
    unfold Expr.typeFor at h
    rw [run_bind, run_get] at h
    simp only at h
    cases hop : session.operators op with
    | none =>
      rw [hop] at h
      cases h
    | some opType =>
      rw [hop] at h
      cases opType with
      | equality =>
        obtain ⟨_, hcount, h⟩ := (Keeps.lift _).bind_ok_iff.1 h
        obtain ⟨_, hargs, -⟩ := (Expr.checkEqual_keeps args).bind_ok_iff.1 h
        exact Expr.knows_of_checkEqual args session (checkCount_ok_iff.1 hcount) hargs hname
      | fixed params result =>
        obtain ⟨_, hcount, h⟩ := (Keeps.lift _).bind_ok_iff.1 h
        obtain ⟨_, hargs, -⟩ := (Expr.checkArgs_keeps args params).bind_ok_iff.1 h
        exact Expr.knows_of_checkArgs args params session (checkCount_ok_iff.1 hcount) hargs hname
  | .call callee args span, _, session, _, h, hname => by
    unfold Expr.typeFor at h
    obtain ⟨calleeType, hcallee, h⟩ := (callee.typeFor_keeps none).bind_ok_iff.1 h
    cases calleeType with
    | name => cases h
    | function params result =>
      obtain ⟨_, hcount, h⟩ := (Keeps.lift _).bind_ok_iff.1 h
      obtain ⟨_, hargs, -⟩ := (Expr.checkArgs_keeps args params).bind_ok_iff.1 h
      rcases hname with hname | hname
      · exact callee.knows_of_typeFor none session hcallee hname
      · exact Expr.knows_of_checkArgs args params session (checkCount_ok_iff.1 hcount) hargs hname
  | .function params body span, wanted, session, _, h, hname => by
    unfold Expr.typeFor at h
    match wanted with
    | none => cases h
    | some (.name _) => cases h
    | some (.function types result) =>
      simp only at h
      split at h
      · cases h
      · rename_i hlen
        have hlen : params.length = types.length := (not_not.1 hlen).symm
        have hkeeps := (bindParams_keepsOuter span.start params types).bind fun _ =>
          body.check_keepsOuter
        obtain ⟨_, hbody, -⟩ := hkeeps.inFrame.bind_ok_iff.1 h
        have hbody := ((inFrame_bindParams_ok_iff hlen).1 hbody).2
        exact .of_enterFunction hlen hname.1 (body.knows_of_check _ hbody hname.2)

/-- The session knows the free names of arguments that were checked. -/
theorem Expr.knows_of_checkArgs {name : String} : ∀ (args : List (Expr P)) (params : List Ty)
    (session : Session) {result : Unit}, args.length = params.length →
      ((Expr.checkArgs args params).run session).1 = .ok result →
        Expr.AnyFree name args → session.Knows name
  | arg :: args, param :: params, session, _, hlen, h, hname => by
    obtain ⟨_, harg, h⟩ := (arg.typeFor_keeps (some param)).bind_ok_iff.1 h
    obtain ⟨_, -, h⟩ := (Keeps.lift _).bind_ok_iff.1 h
    rcases hname with hname | hname
    · exact arg.knows_of_typeFor _ session harg hname
    · exact Expr.knows_of_checkArgs args params session (Nat.succ.inj hlen) h hname

/-- The session knows the free names of operands that were checked. -/
theorem Expr.knows_of_checkEqual {name : String} : ∀ (args : List (Expr P)) (session : Session)
    {result : Unit}, args.length = 2 → ((Expr.checkEqual args).run session).1 = .ok result →
      Expr.AnyFree name args → session.Knows name
  | left :: rest, session, _, hlen, h, hname => by
    obtain ⟨type, hleft, h⟩ := (left.typeFor_keeps none).bind_ok_iff.1 h
    rcases hname with hname | hname
    · exact left.knows_of_typeFor none session hleft hname
    · exact Expr.knows_of_checkArgs rest [type] session (Nat.succ.inj hlen) h hname

/-- The session knows the free names of a statement that was checked. -/
theorem Stmt.knows_of_check {name : String} : ∀ (stmt : Stmt P) (session : Session)
    {types : List Ty}, (stmt.check.run session).1 = .ok types → stmt.Free name →
      session.Knows name
  | .declare other type value span, session, _, h, hname => by
    unfold Stmt.check at h
    rw [run_bind, run_get] at h
    simp only at h
    split at h
    · cases h
    · obtain ⟨_, hvalue, -⟩ := (value.typeFor_keeps _).bind_ok_iff.1 h
      exact value.knows_of_typeFor _ session hvalue hname
  | .assign target value span, session, _, h, hname => by
    unfold Stmt.check at h
    rw [run_bind, run_get] at h
    simp only at h
    cases hfind : session.scope.find? target with
    | none =>
      rw [hfind] at h
      cases h
    | some type =>
      rw [hfind] at h
      obtain ⟨_, hvalue, -⟩ := (value.typeFor_keeps _).bind_ok_iff.1 h
      rcases hname with rfl | hname
      · exact ⟨type, hfind⟩
      · exact value.knows_of_typeFor _ session hvalue hname
  | .branch condition yes no _, session, _, h, hname => by
    obtain ⟨_, hcondition, h⟩ := (condition.typeFor_keeps _).bind_ok_iff.1 h
    obtain ⟨_, -, h⟩ := (Keeps.lift _).bind_ok_iff.1 h
    obtain ⟨_, hyes, h⟩ := yes.check_keepsOuter.inFrame.bind_ok_iff.1 h
    obtain ⟨_, hno, -⟩ := no.check_keepsOuter.inFrame.bind_ok_iff.1 h
    rcases hname with hname | hname | hname
    · exact condition.knows_of_typeFor _ session hcondition hname
    · exact yes.knows_of_check session.enter hyes hname
    · exact no.knows_of_check session.enter hno hname
  | .loop condition body _, session, _, h, hname => by
    obtain ⟨_, hcondition, h⟩ := (condition.typeFor_keeps _).bind_ok_iff.1 h
    obtain ⟨_, -, hbody⟩ := (Keeps.lift _).bind_ok_iff.1 h
    rcases hname with hname | hname
    · exact condition.knows_of_typeFor _ session hcondition hname
    · exact body.knows_of_check session.enter hbody hname
  | .returnValue value _, session, _, h, hname | .expression value _, session, _, h, hname => by
    obtain ⟨_, hvalue, -⟩ := (value.typeFor_keeps none).bind_ok_iff.1 h
    exact value.knows_of_typeFor none session hvalue hname

/-- The session knows the free names of statements that were checked: those that an earlier one
declares are not free in all of them. -/
theorem Stmt.knows_of_checkAll {name : String} : ∀ (stmts : List (Stmt P)) (session : Session)
    {types : List Ty}, ((Stmt.checkAll stmts).run session).1 = .ok types →
      Stmt.AnyFree name stmts → session.Knows name
  | stmt :: rest, session, _, h, hname => by
    rw [Stmt.checkAll_cons_outcome] at h
    obtain ⟨_, hstmt, h⟩ := Outcome.bind_eq_ok.1 h
    obtain ⟨_, hrest, -⟩ := Outcome.bind_eq_ok.1 h
    rcases hname with hname | ⟨hdeclares, hname⟩
    · exact stmt.knows_of_check session hstmt hname
    · exact .of_bindAll hdeclares (Stmt.knows_of_checkAll rest _ hrest hname)

/-- The session knows the free names of a block that was checked. -/
theorem Block.knows_of_check {name : String} : ∀ (block : Block P) (session : Session)
    {types : List Ty}, (block.check.run session).1 = .ok types → block.Free name →
      session.Knows name
  | .mk stmts span, session, _, h, hname => by
    rw [Block.check_run] at h
    obtain ⟨_, hstmts, -⟩ := Outcome.bind_eq_ok.1 h
    exact Stmt.knows_of_checkAll stmts session hstmts hname

end

/-! ## Later sessions -/

/-- A session has the operators of another, and gives the names that this one knows the types that
they have in it. -/
structure Session.Later (later earlier : Session) : Prop where
  operators : later.operators = earlier.operators
  find? : ∀ name type, earlier.scope.find? name = some type → later.scope.find? name = some type

/-- An expression that has a type has the same one in every later session. -/
theorem Session.Later.typeFor {later earlier : Session} (h : later.Later earlier) {expr : Expr P}
    {wanted : Option Ty} {type : Ty} (htype : ((expr.typeFor wanted).run earlier).1 = .ok type) :
    ((expr.typeFor wanted).run later).1 = .ok type := by
  have hagrees : earlier.Agrees (expr.Free ·) later := by
    refine ⟨h.operators.symm, fun name hname => ?_⟩
    obtain ⟨found, hfound⟩ := expr.knows_of_typeFor wanted earlier htype hname
    rw [hfound, h.find? name found hfound]
  exact (expr.typeFor_same wanted hagrees).symm.trans htype

/-- What has a type in an earlier session has it in a later one. -/
theorem Session.Later.infer {later earlier : Session} (h : later.Later earlier) {expr : Expr P}
    {type : Ty} (htype : earlier.infer expr = .ok type) : later.infer expr = .ok type :=
  h.typeFor htype

/-- An expression that can be used at a type is typed as this type. -/
theorem Session.check_eq_ok_iff {session : Session} {expr : Expr P} {expected type : Ty} :
    session.check expected expr = .ok type ↔
      ((expr.typeFor (some expected)).run session).1 = .ok expected ∧ type = expected := by
  unfold Session.check Expr.check
  rw [(expr.typeFor_keeps _).bind_ok_iff]
  simp only [(Keeps.lift _).bind_ok_iff, run_lift, agree_ok_iff, run_pure, Except.ok.injEq]
  refine ⟨?_, ?_⟩
  · rintro ⟨received, hreceived, -, rfl, rfl⟩
    exact ⟨hreceived, rfl⟩
  · rintro ⟨hreceived, rfl⟩
    exact ⟨_, hreceived, ⟨⟩, rfl, rfl⟩

/-- What checks against a type in an earlier session does so in a later one. -/
theorem Session.Later.check {later earlier : Session} (h : later.Later earlier) {expr : Expr P}
    {expected type : Ty} (htype : earlier.check expected expr = .ok type) :
    later.check expected expr = .ok type := by
  rw [check_eq_ok_iff] at htype ⊢
  exact ⟨h.typeFor htype.1, htype.2⟩

/-! ## Statements of a block -/

/-- The expression that belongs to a statement itself has the given type in a session: the value of a
declaration or an assignment that of the name it is for, a condition that of truth values, and any
other value its own. The blocks of the statement do not matter. -/
def Stmt.TypedAs (session : Session) (type : Ty) : Stmt P → Prop
  | .declare _ declared value _ => type = declared ∧ session.check declared value = .ok declared
  | .assign name value _ =>
    session.scope.find? name = some type ∧ session.check type value = .ok type
  | .branch condition _ _ _ | .loop condition _ _ =>
    type = Ty.bool ∧ session.check Ty.bool condition = .ok Ty.bool
  | .returnValue value _ | .expression value _ => session.infer value = .ok type
  | .returnVoid _ => type = Ty.void

/-- A value that is typed and then found to agree with what is wanted can be used at that type. -/
theorem Session.check_of_agree {session : Session} {expr : Expr P} {use : Use} {expected : Ty}
    {pos : P} {α : Type} {next : Checking P α} {a : α}
    (h : ((do
        let received ← expr.typeFor (some expected)
        agree use expected received pos
        next).run session).1 = .ok a) : session.check expected expr = .ok expected := by
  obtain ⟨received, hreceived, h⟩ := (expr.typeFor_keeps _).bind_ok_iff.1 h
  obtain ⟨_, hagree, -⟩ := (Keeps.lift _).bind_ok_iff.1 h
  cases agree_ok_iff.1 hagree
  exact check_eq_ok_iff.2 ⟨hreceived, rfl⟩

/-- The expression of a statement that is well typed has a type. -/
theorem Stmt.typedAs_of_check {session : Session} {types : List Ty} : ∀ {stmt : Stmt P},
    (stmt.check.run session).1 = .ok types → ∃ type, stmt.TypedAs session type
  | .declare name type value span, h => by
    unfold Stmt.check at h
    rw [run_bind, run_get] at h
    simp only at h
    split at h
    · cases h
    · exact ⟨type, rfl, Session.check_of_agree h⟩
  | .assign name value span, h => by
    unfold Stmt.check at h
    rw [run_bind, run_get] at h
    simp only at h
    cases hfind : session.scope.find? name with
    | none =>
      rw [hfind] at h
      cases h
    | some type =>
      rw [hfind] at h
      exact ⟨type, hfind, Session.check_of_agree h⟩
  | .branch .., h | .loop .., h => ⟨Ty.bool, rfl, Session.check_of_agree h⟩
  | .returnValue value span, h | .expression value span, h => by
    obtain ⟨type, hvalue, -⟩ := (value.typeFor_keeps none).bind_ok_iff.1 h
    exact ⟨type, hvalue⟩
  | .returnVoid _, _ => ⟨Ty.void, rfl⟩

/-- The expression of a statement has the same type in every later session. -/
theorem Stmt.TypedAs.later {later earlier : Session} (h : later.Later earlier) {type : Ty} :
    ∀ {stmt : Stmt P}, stmt.TypedAs earlier type → stmt.TypedAs later type
  | .declare .., ⟨htype, hvalue⟩ | .branch .., ⟨htype, hvalue⟩ | .loop .., ⟨htype, hvalue⟩ =>
    ⟨htype, h.check hvalue⟩
  | .assign .., ⟨hname, hvalue⟩ => ⟨h.find? _ _ hname, h.check hvalue⟩
  | .returnValue .., hvalue | .expression .., hvalue => h.infer hvalue
  | .returnVoid _, htype => htype

/-! ## Programs -/

/-- A scope of one frame that has the names of another one has them all. -/
theorem Scope.Extends.find? {after before : Scope} (h : after.Extends before)
    (hroot : before.outer = []) {name : String} {type : Ty}
    (hname : before.find? name = some type) : after.find? name = some type := by
  obtain ⟨inner, outer⟩ := before
  obtain ⟨inner', outer'⟩ := after
  cases hroot
  cases h with
  | cons hinner houter =>
    rw [Scope.find?_eq, List.findSome?_nil, Option.or_none] at hname
    rw [Scope.find?_eq, hinner name type hname, Option.some_or]

/-- Statements that are well typed are well typed up to each of them, which leaves its own name behind
and whose rest is checked in what it leaves. -/
theorem Stmt.checkAll_split {before rest : List (Stmt P)} {stmt : Stmt P} {session after : Session}
    {types : List Ty}
    (h : (Stmt.checkAll (before ++ stmt :: rest)).run session = (.ok types, after)) :
    ∃ done returned more, (Stmt.checkAll before).run session = (.ok done, session.bindAll before) ∧
      stmt.check.run (session.bindAll before) =
        (.ok returned, (session.bindAll before).bindAll [stmt]) ∧
      (Stmt.checkAll rest).run ((session.bindAll before).bindAll [stmt]) = (.ok more, after) := by
  rw [Stmt.checkAll_append, run_bind] at h
  rcases Stmt.checkAll_run before session with ⟨done, hdone⟩ | ⟨_, _, _, _, _, -, -, -, hfail⟩
  · rw [hdone] at h
    simp only [run_bind] at h
    rcases stmt.check_binds (session.bindAll before) with ⟨fault, hstmt⟩ | ⟨returned, hstmt, -⟩
    · rw [Stmt.checkAll_cons_error hstmt] at h
      cases h
    · rw [Stmt.checkAll_cons_run hstmt] at h
      refine ⟨done, returned, ?_⟩
      rcases hrest : (Stmt.checkAll rest).run ((session.bindAll before).bindAll [stmt]) with
        ⟨fault | more, last⟩
      · rw [hrest] at h
        cases h
      · rw [hrest] at h
        cases h
        exact ⟨more, hdone, hstmt, rfl⟩
  · rw [hfail] at h
    cases h

/-- A program that is well typed on top of one frame leaves a session in which the expression of each
of its statements has the type that it had when the statement was checked. -/
theorem Session.typedAs_of_run {session after : Session} (hroot : session.scope.outer = [])
    {program : Block P} {returns : List Ty} (h : session.run program = (after, .ok returns))
    {before rest : List (Stmt P)} {stmt : Stmt P} (hstmts : program.stmts = before ++ stmt :: rest) :
    ∃ done returned type,
      (Stmt.checkAll before).run session = (.ok done, session.bindAll before) ∧
      stmt.check.run (session.bindAll before) =
        (.ok returned, (session.bindAll before).bindAll [stmt]) ∧
      stmt.TypedAs (session.bindAll before) type ∧ stmt.TypedAs after type := by
  obtain ⟨stmts, span⟩ := program
  obtain rfl : stmts = before ++ stmt :: rest := hstmts
  rw [Session.run_mk] at h
  rcases hall : (Stmt.checkAll (before ++ stmt :: rest)).run session with ⟨fault | types, last⟩
  · rw [hall] at h
    cases h
  · rw [hall] at h
    obtain rfl : last = after := congrArg Prod.fst h
    obtain ⟨done, returned, more, hdone, hstmt, hrest⟩ := Stmt.checkAll_split hall
    obtain ⟨type, htype⟩ := Stmt.typedAs_of_check (congrArg Prod.fst hstmt)
    have hextends := (stmt.check_binds.extends (session.bindAll before))
    have hmore := Stmt.checkAll_extends rest ((session.bindAll before).bindAll [stmt])
    have hkeeps := Stmt.checkAll_keepsOuter rest ((session.bindAll before).bindAll [stmt])
    rw [hstmt] at hextends
    rw [hrest] at hmore hkeeps
    have hlater : last.Later (session.bindAll before) :=
      ⟨hkeeps.1, fun _ _ => (hmore.trans hextends).find? hroot⟩
    exact ⟨done, returned, type, hdone, hstmt, htype, htype.later hlater⟩

/-- What it means that a source is well typed: it spells a program, which is well typed. -/
theorem Source.checkWithin_eq_ok_iff {source : Source} {limit : Nat} {checked : Checked} :
    source.checkWithin limit = .ok checked ↔ source.program limit = .ok checked.program ∧
      Session.builtin.run checked.program = (checked.session, .ok checked.returns) := by
  obtain ⟨program, session, returns⟩ := checked
  unfold Source.checkWithin
  rw [Outcome.bind_eq_ok]
  refine ⟨?_, ?_⟩
  · rintro ⟨found, hfound, h⟩
    obtain ⟨types, htypes, h⟩ := Outcome.bind_eq_ok.1 h
    cases h
    exact ⟨hfound, Prod.ext rfl htypes⟩
  · rintro ⟨hprogram, hrun⟩
    refine ⟨program, hprogram, ?_⟩
    simp only [hrun]
    rfl

/-- In a source that is well typed, the expression of every statement at the top level has the type in
the resulting session that it had when the statement was checked, after the statements before it. -/
theorem Source.typing_stable {source : Source} {limit : Nat} {checked : Checked}
    (h : source.checkWithin limit = .ok checked) {before rest : List (Stmt Position)}
    {stmt : Stmt Position} (hstmts : checked.program.stmts = before ++ stmt :: rest) :
    ∃ earlier done returned type,
      (Stmt.checkAll before).run Session.builtin = (.ok done, earlier) ∧
      stmt.check.run earlier = (.ok returned, earlier.bindAll [stmt]) ∧
      stmt.TypedAs earlier type ∧ stmt.TypedAs checked.session type := by
  obtain ⟨-, hrun⟩ := checkWithin_eq_ok_iff.1 h
  obtain ⟨done, returned, type, hdone, hstmt, htype, hafter⟩ :=
    Session.typedAs_of_run rfl hrun hstmts
  exact ⟨_, done, returned, type, hdone, hstmt, htype, hafter⟩

/-- A function whose local name is declared at the top level afterwards, as another type. -/
theorem Source.typing_stable_shadowed :
    let source := Source.mk ("let n: Int = 1; let f: () -> Int = () => \x7b let x: Int = n; "
      ++ "return x; \x7d; f(); let x: Bool = true;") "shell"
    ∃ checked before stmt rest, source.checkWithin 6 = .ok checked ∧
      checked.program.stmts = before ++ stmt :: rest ∧
      stmt.text = "let f: () -> Int = () => \x7b let x: Int = n; return x; \x7d;" ∧
      rest.map Stmt.text = ["f();", "let x: Bool = true;"] ∧
      ∃ earlier done returned type,
        (Stmt.checkAll before).run Session.builtin = (.ok done, earlier) ∧
        stmt.check.run earlier = (.ok returned, earlier.bindAll [stmt]) ∧
        stmt.TypedAs earlier type ∧ stmt.TypedAs checked.session type := by
  intro source
  have htexts : (source.checkWithin 6).map (·.program.stmts.map Stmt.text) =
      .ok (["let n: Int = 1;"] ++ "let f: () -> Int = () => \x7b let x: Int = n; return x; \x7d;" ::
        ["f();", "let x: Bool = true;"]) := by
    decide +kernel
  obtain ⟨checked, hcheck, htexts⟩ := Outcome.map_eq_ok.1 htexts
  obtain ⟨before, tail, hstmts, -, htail⟩ := List.map_eq_append_iff.1 htexts
  obtain ⟨stmt, rest, rfl, hstmt, hrest⟩ := List.map_eq_cons_iff.1 htail
  exact ⟨checked, before, stmt, rest, hcheck, hstmts, hstmt, hrest,
    Source.typing_stable hcheck hstmts⟩

end LetWhile
