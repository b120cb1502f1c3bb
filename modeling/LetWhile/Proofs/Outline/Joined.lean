import LetWhile.Proofs.Outline.Assembly

/-!
# Outlining joined slices

A cut looks only as far as the semicolon or the block that ends its statement, so more trees at the
end of a slice do not change it. The one exception is a tree that is left alone: it needs no
semicolon, and with more trees behind it it would begin another statement. Slices that do not end
with such a tree (`Outline.EndsLone`) can be joined to others and are outlined as before
(`Outline.ofTrees_joined`).
-/

namespace LetWhile

namespace Outline
variable {P : Type}

/-! ## Steps -/

/-- A step in a slice that more trees follow. -/
def Step.followedBy {α : Type} (more : List (Tree P)) (step : Step P α) : Step P α :=
  ⟨step.value, step.tree, step.rest ++ more⟩

/-- A run in a slice that more trees follow. -/
def Run.followedBy (more : List (Tree P)) (run : Run P) : Run P :=
  ⟨run.trees, run.stop, run.rest ++ more⟩

/-- A cut of a slice that more trees follow. -/
def Cut.followedBy (more : List (Tree P)) (cut : Cut P) : Cut P := ⟨cut.piece, cut.rest ++ more⟩

section
variable {rest : List (Tree P)} (more : List (Tree P))

/-- A tree that was asked for is the same with more trees behind it. -/
theorem next_followedBy {α : Type} {message : String} {read? : Tree P → Option α} {last : Tree P}
    {step : Step P α} (h : next message read? last rest = .ok step) :
    next message read? last (rest ++ more) = .ok (step.followedBy more) := by
  obtain ⟨rfl, hread⟩ := next_ok h
  simp only [List.cons_append, next, hread]
  rfl

/-- A run stops at the same tree with more trees behind it. -/
theorem runTo_followedBy {ends : Tree P → Bool} {run : Run P} (h : runTo ends rest = some run) :
    runTo ends (rest ++ more) = some (run.followedBy more) := by
  obtain ⟨separator, rfl, hends, hstop, hfree⟩ := runTo_eq_some h
  rw [List.append_assoc, List.cons_append, runTo_append separator _ hfree hends, ← hstop]
  rfl

/-- A run up to a semicolon is the same with more trees behind it. -/
theorem runToSemicolon_followedBy {after : P} {run : Run P}
    (h : runToSemicolon after rest = .ok run) :
    runToSemicolon after (rest ++ more) = .ok (run.followedBy more) := by
  rw [runToSemicolon, runTo_followedBy more (runToSemicolon_ok h)]

/-! ## Cuts -/

variable {first : Tree P} {cut : Cut P}

/-- A declaration is cut off alike with more trees behind it. -/
theorem cutDeclare_followedBy (h : cutDeclare first rest = .ok cut) :
    cutDeclare first (rest ++ more) = .ok (cut.followedBy more) := by
  obtain ⟨name, hname, h⟩ := Outcome.bind_eq_ok.1 h
  obtain ⟨colon, hcolon, h⟩ := Outcome.bind_eq_ok.1 h
  split at h
  · cases h
  · rename_i type htype
    obtain ⟨value, hvalue, h⟩ := Outcome.bind_eq_ok.1 h
    cases h
    refine Outcome.bind_eq_ok.2 ⟨_, next_followedBy more hname, Outcome.bind_eq_ok.2
      ⟨_, next_followedBy more hcolon, ?_⟩⟩
    simp only [Step.followedBy, runTo_followedBy more htype]
    exact Outcome.bind_eq_ok.2 ⟨_, runToSemicolon_followedBy more hvalue, rfl⟩

/-- A branch is cut off alike with more trees behind it. -/
theorem cutBranch_followedBy (h : cutBranch first rest = .ok cut) :
    cutBranch first (rest ++ more) = .ok (cut.followedBy more) := by
  obtain ⟨condition, hcondition, h⟩ := Outcome.bind_eq_ok.1 h
  obtain ⟨yes, hyes, h⟩ := Outcome.bind_eq_ok.1 h
  obtain ⟨otherwise, hotherwise, h⟩ := Outcome.bind_eq_ok.1 h
  obtain ⟨no, hno, h⟩ := Outcome.bind_eq_ok.1 h
  cases h
  exact Outcome.bind_eq_ok.2 ⟨_, next_followedBy more hcondition, Outcome.bind_eq_ok.2
    ⟨_, next_followedBy more hyes, Outcome.bind_eq_ok.2 ⟨_, next_followedBy more hotherwise,
      Outcome.bind_eq_ok.2 ⟨_, next_followedBy more hno, rfl⟩⟩⟩⟩

/-- A loop is cut off alike with more trees behind it. -/
theorem cutLoop_followedBy (h : cutLoop first rest = .ok cut) :
    cutLoop first (rest ++ more) = .ok (cut.followedBy more) := by
  obtain ⟨condition, hcondition, h⟩ := Outcome.bind_eq_ok.1 h
  obtain ⟨body, hbody, h⟩ := Outcome.bind_eq_ok.1 h
  cases h
  exact Outcome.bind_eq_ok.2 ⟨_, next_followedBy more hcondition, Outcome.bind_eq_ok.2
    ⟨_, next_followedBy more hbody, rfl⟩⟩

/-- A return is cut off alike with more trees behind it. -/
theorem cutReturn_followedBy (h : cutReturn first rest = .ok cut) :
    cutReturn first (rest ++ more) = .ok (cut.followedBy more) := by
  obtain ⟨value, hvalue, h⟩ := Outcome.bind_eq_ok.1 h
  refine Outcome.bind_eq_ok.2 ⟨_, runToSemicolon_followedBy more hvalue, ?_⟩
  simp only [Run.followedBy] at h ⊢
  split at h <;> cases h <;> rfl

/-- An assignment is cut off alike with more trees behind it. -/
theorem cutAssign_followedBy {equals : Tree P} (h : cutAssign first equals rest = .ok cut) :
    cutAssign first equals (rest ++ more) = .ok (cut.followedBy more) := by
  unfold cutAssign at h ⊢
  split at h
  · cases h
  · obtain ⟨value, hvalue, h⟩ := Outcome.bind_eq_ok.1 h
    cases h
    exact Outcome.bind_eq_ok.2 ⟨_, runToSemicolon_followedBy more hvalue, rfl⟩

/-- An expression with a semicolon is cut off alike with more trees behind it. -/
theorem cutExpression_followedBy (h : cutExpression first rest = .ok cut) :
    cutExpression first (rest ++ more) = .ok (cut.followedBy more) := by
  obtain ⟨value, hvalue, h⟩ := Outcome.bind_eq_ok.1 h
  cases h
  exact Outcome.bind_eq_ok.2 ⟨_, runToSemicolon_followedBy more hvalue, rfl⟩

/-- What begins with no keyword is cut off alike with more trees behind it, unless it is a lone
tree: that needs no semicolon only where nothing follows. -/
theorem cutPlain_followedBy (hne : rest ≠ []) (h : cutPlain first rest = .ok cut) :
    cutPlain first (rest ++ more) = .ok (cut.followedBy more) := by
  obtain ⟨second, rest, rfl⟩ := List.exists_cons_of_ne_nil hne
  rw [List.cons_append, cutPlain]
  rw [cutPlain] at h
  by_cases hassign : second.isOperator "="
  · rw [if_pos hassign] at h ⊢
    exact cutAssign_followedBy more h
  · rw [if_neg hassign] at h ⊢
    exact cutExpression_followedBy more h

/-- More trees at the end of a slice of two trees at least do not change its first statement. -/
theorem cutFirst_followedBy (hne : rest ≠ []) (h : cutFirst first rest = .ok cut) :
    cutFirst first (rest ++ more) = .ok (cut.followedBy more) := by
  unfold cutFirst at h ⊢
  by_cases hlet : first.isKind (.keyword .letWord)
  · rw [if_pos hlet] at h ⊢
    exact cutDeclare_followedBy more h
  rw [if_neg hlet] at h ⊢
  by_cases hif : first.isKind (.keyword .ifWord)
  · rw [if_pos hif] at h ⊢
    exact cutBranch_followedBy more h
  rw [if_neg hif] at h ⊢
  by_cases hwhile : first.isKind (.keyword .whileWord)
  · rw [if_pos hwhile] at h ⊢
    exact cutLoop_followedBy more h
  rw [if_neg hwhile] at h ⊢
  by_cases hreturn : first.isKind (.keyword .returnWord)
  · rw [if_pos hreturn] at h ⊢
    exact cutReturn_followedBy more h
  rw [if_neg hreturn] at h ⊢
  exact cutPlain_followedBy more hne h

end

/-- Where a slice is left after a cut, it is as it was before. -/
theorem CutsTo.rest_isSuffix {slice : List (Tree P)} {cut : Cut P} (h : CutsTo slice cut) :
    cut.rest <:+ slice := by
  cases h with
  | lone => exact List.nil_suffix
  | plain hslice => exact ⟨_, hslice.symm⟩
  | branch hslice => exact ⟨[_, _, _, _, _], hslice.symm⟩
  | loop hslice => exact ⟨[_, _, _], hslice.symm⟩

/-- A tree that is left alone is an expression, if it is a statement at all. -/
theorem cutFirst_nil {first : Tree P} {cut : Cut P} (h : cutFirst first [] = .ok cut) :
    cut = ⟨.plain (.expression [first] first.span), []⟩ := by
  unfold cutFirst at h
  split at h
  · cases h
  split at h
  · cases h
  split at h
  · cases h
  split at h
  · cases h
  · cases h
    rfl

/-! ## Slices -/

/-- The last of some statements is the last of the trees that they were outlined from, without a
semicolon. -/
def EndsLone (trees : List (Tree P)) (stmts : List (Stmt P)) : Prop :=
  ∃ before tree init, trees = before ++ [tree] ∧ stmts = init ++ [.expression [tree] tree.span]

/-- A lone tree at the end is still at the end with a statement in front. -/
theorem EndsLone.cons {trees rest : List (Tree P)} {stmts : List (Stmt P)}
    (h : EndsLone rest stmts) (hrest : rest <:+ trees) (stmt : Stmt P) :
    EndsLone trees (stmt :: stmts) := by
  obtain ⟨before, tree, init, rfl, rfl⟩ := h
  obtain ⟨front, rfl⟩ := hrest
  exact ⟨front ++ before, tree, stmt :: init, (List.append_assoc _ _ _).symm, rfl⟩

/-- A slice that does not end with a lone tree, and any other behind it, are outlined as the
statements of the first and then those of the second. -/
theorem ofTrees_joined {trees : List (Tree P)} {stmts : List (Stmt P)} (more : List (Tree P))
    (hs : Tree.AllSpelled trees) (h : ofTrees trees = .ok stmts) (hlone : ¬ EndsLone trees stmts) :
    ofTrees (trees ++ more) = (ofTrees more).map (stmts ++ ·) := by
  induction trees using ofTrees.induct generalizing stmts with
  | case1 =>
    rw [ofTrees_nil] at h
    cases h
    rw [List.nil_append]
    cases ofTrees more <;> rfl
  | case2 first rest fault hcut => cases (ofTrees_error hcut).symm.trans h
  | case3 first rest stmt after hcut ih =>
    rw [ofTrees_plain hcut] at h
    obtain ⟨later, hlater, h⟩ := Outcome.bind_eq_ok.1 h
    cases h
    have hne : rest ≠ [] := by
      rintro rfl
      cases cutFirst_nil hcut
      rw [ofTrees_nil] at hlater
      cases hlater
      exact hlone ⟨[], first, [], rfl, rfl⟩
    have hrest := (cutFirst_cutsTo hs hcut).rest_isSuffix
    rw [List.cons_append, ofTrees_plain (cutFirst_followedBy more hne hcut),
      ih (Tree.Holds.of_slice hs hrest.isInfix) hlater fun hend => hlone (hend.cons hrest stmt)]
    cases ofTrees more <;> rfl
  | case4 first rest condition yes no span after hcut ihyes ihno ih =>
    rw [ofTrees_branch hcut] at h
    obtain ⟨yesStmts, hyes, h⟩ := Outcome.bind_eq_ok.1 h
    obtain ⟨noStmts, hno, h⟩ := Outcome.bind_eq_ok.1 h
    obtain ⟨later, hlater, h⟩ := Outcome.bind_eq_ok.1 h
    cases h
    have hne : rest ≠ [] := by
      rintro rfl
      cases cutFirst_nil hcut
    have hrest := (cutFirst_cutsTo hs hcut).rest_isSuffix
    rw [List.cons_append, ofTrees_branch (cutFirst_followedBy more hne hcut), hyes, hno,
      ih (Tree.Holds.of_slice hs hrest.isInfix) hlater fun hend => hlone (hend.cons hrest _)]
    cases ofTrees more <;> rfl
  | case5 first rest condition body span after hcut ihbody ih =>
    rw [ofTrees_loop hcut] at h
    obtain ⟨bodyStmts, hbody, h⟩ := Outcome.bind_eq_ok.1 h
    obtain ⟨later, hlater, h⟩ := Outcome.bind_eq_ok.1 h
    cases h
    have hne : rest ≠ [] := by
      rintro rfl
      cases cutFirst_nil hcut
    have hrest := (cutFirst_cutsTo hs hcut).rest_isSuffix
    rw [List.cons_append, ofTrees_loop (cutFirst_followedBy more hne hcut), hbody,
      ih (Tree.Holds.of_slice hs hrest.isInfix) hlater fun hend => hlone (hend.cons hrest _)]
    cases ofTrees more <;> rfl

end Outline

end LetWhile
