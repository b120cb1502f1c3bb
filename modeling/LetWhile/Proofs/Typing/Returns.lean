import LetWhile.Proofs.Typing.Visits

/-!
# The returns of a block

The returns of a block are its return statements in the order of the text, with those of nested
branches and loops but not those of function literals, each typed in the session that it stands in.
A block that passes yields the one type of its returns if there are any (`Block.returns_of_ok`), and
with the blocks that checking gets through this says what a program returns, and where several
return types are found (`returns_collected`).
-/

namespace LetWhile

open Checking

variable {P : Type}

mutual

/-- The types of the returns of a statement, or why they have none. -/
def Stmt.returns (session : Session) : Stmt P → List (Outcome P Ty)
  | .declare .. | .assign .. | .expression .. => []
  | .branch _ yes no _ => yes.returns session.enter ++ no.returns session.enter
  | .loop _ body _ => body.returns session.enter
  | .returnValue value _ => [session.infer value]
  | .returnVoid _ => [.ok Ty.void]

/-- The types of the returns of several statements, each in the session with the names declared
before it. -/
def Stmt.allReturns (session : Session) : List (Stmt P) → List (Outcome P Ty)
  | [] => []
  | stmt :: rest => stmt.returns session ++ Stmt.allReturns (session.bindAll [stmt]) rest

/-- The types of the returns of a block. -/
def Block.returns (session : Session) : Block P → List (Outcome P Ty)
  | .mk stmts _ => Stmt.allReturns session stmts

end

/-- The types of the returns of a block where it is visited. -/
def Visit.returns (visit : Visit P) : List (Outcome P Ty) := visit.block.returns visit.session

/-- All returns of a block have a type, and it is the same one. -/
def Visit.Agrees (visit : Visit P) : Prop :=
  ∃ types : List Ty, visit.returns = types.map .ok ∧ ∀ a ∈ types, ∀ b ∈ types, a = b

/-- A declaration returns nothing. -/
theorem Stmt.check_declare_ok {name : String} {type : Ty} {value : Expr P} {span : Span P}
    {session : Session} {found : List Ty}
    (h : ((Stmt.declare name type value span).check.run session).1 = .ok found) : found = [] := by
  unfold Stmt.check at h
  rw [run_bind, run_get] at h
  simp only at h
  split at h
  · cases h
  · obtain ⟨_, -, h⟩ := (value.typeFor_keeps _).bind_ok_iff.1 h
    obtain ⟨_, -, h⟩ := (Keeps.lift _).bind_ok_iff.1 h
    rw [run_bind] at h
    split at h
    · cases h
      rfl
    · cases h

-- The distinct types that a check yields are those of the returns; the lists themselves differ, as
-- types are dropped at every branch and block on the way up.
mutual

/-- The types that a checked statement returns are those of the returns in it. -/
theorem Stmt.returns_of_ok : ∀ (stmt : Stmt P) (session : Session) {found : List Ty},
    (stmt.check.run session).1 = .ok found →
    ∃ types, stmt.returns session = types.map .ok ∧ Ty.dedup types = Ty.dedup found
  | .declare name type value span, session, found, h => by
    rw [Stmt.check_declare_ok h]
    exact ⟨[], rfl, rfl⟩
  | .assign name value span, session, found, h => by
    unfold Stmt.check at h
    rw [run_bind, run_get] at h
    simp only at h
    cases hname : session.scope.find? name with
    | none =>
      rw [hname] at h
      cases h
    | some type =>
      rw [hname] at h
      obtain ⟨_, -, h⟩ := (value.typeFor_keeps _).bind_ok_iff.1 h
      obtain ⟨_, -, h⟩ := (Keeps.lift _).bind_ok_iff.1 h
      cases h
      exact ⟨[], rfl, rfl⟩
  | .branch condition yes no span, session, found, h => by
    obtain ⟨_, -, h⟩ := (condition.typeFor_keeps _).bind_ok_iff.1 h
    obtain ⟨_, -, h⟩ := (Keeps.lift _).bind_ok_iff.1 h
    obtain ⟨yesFound, hyes, h⟩ := yes.check_keepsOuter.inFrame.bind_ok_iff.1 h
    obtain ⟨noFound, hno, h⟩ := no.check_keepsOuter.inFrame.bind_ok_iff.1 h
    cases h
    obtain ⟨yesTypes, hyesReturns, rfl, -⟩ := yes.returns_of_ok session.enter hyes
    obtain ⟨noTypes, hnoReturns, rfl, -⟩ := no.returns_of_ok session.enter hno
    refine ⟨yesTypes ++ noTypes, ?_, ?_⟩
    · rw [Stmt.returns, hyesReturns, hnoReturns, List.map_append]
    · rw [Ty.dedup_dedup, Ty.dedup_append_dedup]
  | .loop condition body span, session, found, h => by
    obtain ⟨_, -, h⟩ := (condition.typeFor_keeps _).bind_ok_iff.1 h
    obtain ⟨_, -, h⟩ := (Keeps.lift _).bind_ok_iff.1 h
    obtain ⟨types, hreturns, rfl, -⟩ := body.returns_of_ok session.enter h
    exact ⟨types, hreturns, (Ty.dedup_dedup types).symm⟩
  | .returnValue value span, session, found, h => by
    obtain ⟨type, hvalue, h⟩ := (value.typeFor_keeps _).bind_ok_iff.1 h
    cases h
    exact ⟨[type], congrArg (· :: []) hvalue, rfl⟩
  | .returnVoid span, session, found, h => by
    cases h
    exact ⟨[Ty.void], rfl, rfl⟩
  | .expression value span, session, found, h => by
    obtain ⟨type, -, h⟩ := (value.typeFor_keeps _).bind_ok_iff.1 h
    cases h
    exact ⟨[], rfl, rfl⟩

/-- The types that checked statements return are those of the returns in them. -/
theorem Stmt.allReturns_of_ok : ∀ (stmts : List (Stmt P)) (session : Session) {found : List Ty},
    ((Stmt.checkAll stmts).run session).1 = .ok found →
    ∃ types, Stmt.allReturns session stmts = types.map .ok ∧ Ty.dedup types = Ty.dedup found
  | [], _, _, h => by
    cases h
    exact ⟨[], rfl, rfl⟩
  | stmt :: rest, session, found, h => by
    rw [Stmt.checkAll_cons_outcome] at h
    obtain ⟨first, hfirst, h⟩ := Outcome.bind_eq_ok.1 h
    obtain ⟨more, hmore, h⟩ := Outcome.bind_eq_ok.1 h
    cases h
    obtain ⟨types, htypes, hsame⟩ := stmt.returns_of_ok session hfirst
    obtain ⟨others, hothers, hsameOthers⟩ := Stmt.allReturns_of_ok rest _ hmore
    refine ⟨types ++ others, ?_, Ty.dedup_append_congr hsame hsameOthers⟩
    rw [Stmt.allReturns, htypes, hothers, List.map_append]

/-- A block yields the distinct types of its returns, of which there is one at most. -/
theorem Block.returns_of_ok : ∀ (block : Block P) (session : Session) {found : List Ty},
    (block.check.run session).1 = .ok found →
    ∃ types, block.returns session = types.map .ok ∧ Ty.dedup types = found ∧ found.length ≤ 1
  | .mk stmts span, session, found, h => by
    rw [Block.check_run] at h
    obtain ⟨types, htypes, hsingle⟩ := Outcome.bind_eq_ok.1 h
    obtain ⟨hdedup, hlength⟩ := singleReturn_ok_iff.1 hsingle
    obtain ⟨returns, hreturns, hsame⟩ := Stmt.allReturns_of_ok stmts session htypes
    exact ⟨returns, hreturns, hsame.trans hdedup, hlength⟩

end

/-- The returns of a block that passes agree. -/
theorem Visit.Passes.agrees {visit : Visit P} (h : visit.Passes) : visit.Agrees := by
  obtain ⟨found, hfound⟩ := h
  obtain ⟨types, htypes, rfl, hlength⟩ := visit.block.returns_of_ok visit.session hfound
  exact ⟨types, htypes, Ty.length_dedup_le_one_iff.1 hlength⟩

/-- Several return types are reported as the distinct ones, at the block, and there are at least
two. -/
theorem singleReturn_several {pos other : P} {types several : List Ty}
    (h : singleReturn pos types = .error ⟨.severalReturnTypes several, other⟩) :
    several = Ty.dedup types ∧ 2 ≤ several.length ∧ other = pos := by
  unfold singleReturn at h
  split at h
  · rename_i first second more hdedup
    cases h
    exact ⟨hdedup.symm, Nat.le_add_left 2 more.length, rfl⟩
  · cases h

/-- A block that fails for several return types lists the distinct types of its returns. -/
theorem Visit.Fails.returns {visit : Visit P} {several : List Ty} {pos : P}
    (h : visit.Fails several pos) :
    (∃ types : List Ty, visit.returns = types.map .ok ∧ several = types.eraseDups) ∧
      2 ≤ several.length ∧ pos = visit.block.span.start := by
  obtain ⟨session, stmts, span⟩ := visit
  obtain ⟨⟨found, hfound⟩, hblock⟩ := h
  have hsingle : singleReturn span.start found = .error ⟨.severalReturnTypes several, pos⟩ := by
    rw [Block.check_run] at hblock
    exact (congrArg (· >>= singleReturn span.start) hfound).symm.trans hblock
  obtain ⟨rfl, hlength, hpos⟩ := singleReturn_several hsingle
  obtain ⟨types, htypes, hsame⟩ := Stmt.allReturns_of_ok stmts session hfound
  exact ⟨⟨types, htypes, by rw [← hsame, Ty.dedup_eq_eraseDups]⟩, hlength, hpos⟩

/-- A program that is well typed yields the type of its returns, if there are any, and all blocks in
it agree on theirs. One that is not, for several return types, has a block with returns of several
types, which are listed in the order in which they first occur, and all blocks that are done before
agree on theirs. -/
theorem returns_collected (session : Session) (program : Block P) :
    match (program.check.run session).1 with
    | .ok found =>
      (∀ visit ∈ program.visits session, visit.Passes ∧ visit.Agrees) ∧
        (program.visits session).map Visit.block = program.blocks ∧
        ∃ types : List Ty, program.returns session = types.map .ok ∧
          ((types = [] ∧ found = []) ∨
            ∃ type, types ≠ [] ∧ (∀ other ∈ types, other = type) ∧ found = [type])
    | .error ⟨.severalReturnTypes several, pos⟩ =>
      ∃ before visit after, program.visits session = before ++ visit :: after ∧
        (∀ other ∈ before, other.Passes ∧ other.Agrees) ∧ visit.Fails several pos ∧
        (before ++ [visit]).map Visit.block <+: program.blocks ∧
        (∃ types : List Ty, visit.returns = types.map .ok ∧ several = types.eraseDups) ∧
        2 ≤ several.length ∧ pos = visit.block.span.start
    | .error _ => True := by
  have htraced := program.check_traced session
  split
  · rename_i found hfound
    obtain ⟨hpasses, hblocks⟩ := htraced.passed found hfound
    obtain ⟨types, htypes, rfl, hlength⟩ := program.returns_of_ok session hfound
    have hagrees := fun visit hvisit => (hpasses visit hvisit).agrees
    refine ⟨fun visit hvisit => ⟨hpasses visit hvisit, hagrees visit hvisit⟩, hblocks, types, htypes,
      ?_⟩
    cases types with
    | nil => exact .inl ⟨rfl, rfl⟩
    | cons type rest =>
      have hsame := Ty.length_dedup_le_one_iff.1 hlength
      exact .inr ⟨type, List.cons_ne_nil _ _, fun other hother => hsame other hother type (.head _),
        Ty.dedup_cons_eq_singleton hlength⟩
  · rename_i several pos hseveral
    obtain ⟨before, visit, after, hvisits, hbefore, hfails, hprefix⟩ :=
      htraced.failed several pos hseveral
    refine ⟨before, visit, after, hvisits, fun other hother => ?_, hfails, hprefix, hfails.returns⟩
    exact ⟨hbefore other hother, (hbefore other hother).agrees⟩
  · trivial

end LetWhile
