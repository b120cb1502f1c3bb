import LetWhile.Outline.OfTrees
import LetWhile.Proofs.Access.Basic

/-!
# Outlining by indices

A statement is cut off a slice by asking for the trees at fixed indices and by cutting the slice at
an index that was searched for. Whether an index is in range rests on what was asked before: the
indices of an `if` are those of trees that were seen there, and a slice is never empty when a
statement is cut off it (`Indexed.outlineRegion_gives`).
-/

namespace LetWhile

variable {P : Type}

/-- A single tree is rendered as its text. -/
theorem Tree.render_singleton (tree : Tree P) : render [tree] = tree.text := by
  rw [render, texts_eq_map, List.map_cons, List.map_nil, String.intercalate_singleton]

namespace Indexed

open Outline (Cut)

/-! ## Steps -/

/-- The fault at an index where something else is needed. -/
def unexpected (elements : List (Tree P)) (index : Nat) (message : String) :
    Indexed P (Fault P) :=
  match elements[index]? with
  | some tree => pure ⟨.unexpectedToken tree.text message, tree.span.start⟩
  | none => do
    let last ← access (lastElement elements)
    let final ← access (difference elements.length 1)
    let shown ← access (sliceFrom elements final)
    pure ⟨.unexpectedToken (Tree.render shown) (message ++ " before end of block"), last.span.stop⟩

/-- The tree at an index, read by `read?`. -/
def require {α : Type} (message : String) (read? : Tree P → Option α) (elements : List (Tree P))
    (index : Nat) : Indexed P α :=
  match elements[index]?.bind read? with
  | some value => pure value
  | none => do
    let fault ← unexpected elements index message
    throw fault

/-- The trees before the first semicolon and those after it. The slice follows the position
`after`. -/
def splitRun (after : P) (elements : List (Tree P)) :
    Indexed P (List (Tree P) × List (Tree P)) :=
  match elements.findIdx? (Tree.isKind .semicolon) with
  | none => throw ⟨.missingSemicolon, Tree.stopOr after elements⟩
  | some index => do
    let value ← access (sliceTo elements index)
    let rest ← access (sliceFrom elements (index + 1))
    pure (value, rest)

/-- The span from the first tree to the last one that is not in `rest`. -/
def spanOf (elements rest : List (Tree P)) : Indexed P (Span P) := do
  let consumed ← access (difference elements.length rest.length)
  let final ← access (difference (max consumed 1) 1)
  let last ← access (element elements final)
  let first ← access (element elements 0)
  pure (first.span.through last.span)

/-! ## Statements -/

/-- The declaration that a slice begins with. -/
def splitDeclare (elements : List (Tree P)) : Indexed P (Cut P) := do
  let name ← require "expected identifier after `let`" (Tree.token? .identifier) elements 1
  let _ ← require "expected `:` after variable name" (Tree.token? .colon) elements 2
  match (elements.drop 3).findIdx? (Tree.isOperator "=") with
  | none =>
    let fault ← unexpected elements elements.length "expected `=` in declaration"
    throw fault
  | some index => do
    let equals := index + 3
    let following ← access (sliceFrom elements (equals + 1))
    let sign ← access (element elements equals)
    let (value, rest) ← splitRun sign.span.stop following
    let type ← access (slice elements 3 equals)
    let span ← spanOf elements rest
    pure ⟨.plain (.declare name.text type value span), rest⟩

/-- The branch that a slice begins with. -/
def splitBranch (elements : List (Tree P)) : Indexed P (Cut P) := do
  let condition ← require Outline.branchShape (Tree.region? .paren) elements 1
  let yes ← require Outline.branchShape (Tree.region? .brace) elements 2
  let _ ← require Outline.branchShape (Tree.token? (.keyword .elseWord)) elements 3
  let no ← require Outline.branchShape (Tree.region? .brace) elements 4
  let rest ← access (sliceFrom elements 5)
  let span ← spanOf elements rest
  pure ⟨.branch condition yes no span, rest⟩

/-- The loop that a slice begins with. -/
def splitLoop (elements : List (Tree P)) : Indexed P (Cut P) := do
  let condition ← require Outline.loopShape (Tree.region? .paren) elements 1
  let body ← require Outline.loopShape (Tree.region? .brace) elements 2
  let rest ← access (sliceFrom elements 3)
  let span ← spanOf elements rest
  pure ⟨.loop condition body span, rest⟩

/-- The return that a slice begins with. -/
def splitReturn (elements : List (Tree P)) : Indexed P (Cut P) :=
  match elements[1]? with
  | none => do
    let first ← access (element elements 0)
    throw ⟨.missingSemicolon, first.span.stop⟩
  | some second =>
    if second.isKind .semicolon then do
      let rest ← access (sliceFrom elements 2)
      let span ← spanOf elements rest
      pure ⟨.plain (.returnVoid span), rest⟩
    else do
      let following ← access (sliceFrom elements 1)
      let first ← access (element elements 0)
      let (value, rest) ← splitRun first.span.stop following
      let span ← spanOf elements rest
      pure ⟨.plain (.returnValue value span), rest⟩

/-- The assignment that a slice begins with. -/
def splitAssign (elements : List (Tree P)) : Indexed P (Cut P) := do
  let first ← access (element elements 0)
  match first.token? .identifier with
  | none => throw ⟨.invalidTarget first.text, first.span.start⟩
  | some target => do
    let following ← access (sliceFrom elements 2)
    let sign ← access (element elements 1)
    let (value, rest) ← splitRun sign.span.stop following
    let span ← spanOf elements rest
    pure ⟨.plain (.assign target.text value span), rest⟩

/-- The expression statement that a slice begins with. -/
def splitExpression (elements : List (Tree P)) : Indexed P (Cut P) := do
  let first ← access (element elements 0)
  let (value, rest) ← splitRun first.span.start elements
  let span ← spanOf elements rest
  pure ⟨.plain (.expression value span), rest⟩

/-- The statement that a slice begins with, and with no reserved word. -/
def splitPlain (elements : List (Tree P)) : Indexed P (Cut P) :=
  if elements.length = 1 then do
    let first ← access (element elements 0)
    let rest ← access (sliceFrom elements 1)
    pure ⟨.plain (.expression elements first.span), rest⟩
  else do
    let second ← access (element elements 1)
    if second.isOperator "=" then splitAssign elements
    else splitExpression elements

/-- The first statement of a slice that is not empty. -/
def splitFirst (elements : List (Tree P)) : Indexed P (Cut P) := do
  let first ← access (element elements 0)
  if first.isKind (.keyword .letWord) then splitDeclare elements
  else if first.isKind (.keyword .ifWord) then splitBranch elements
  else if first.isKind (.keyword .whileWord) then splitLoop elements
  else if first.isKind (.keyword .returnWord) then splitReturn elements
  else splitPlain elements

/-! ## In range -/

/-- The index of the first tree that ends a run is the length of the run. -/
theorem findIdx?_eq_runTo (ends : Tree P → Bool) (trees : List (Tree P)) :
    trees.findIdx? ends = (Outline.runTo ends trees).map fun run => run.trees.length := by
  induction trees with
  | nil => rfl
  | cons tree rest ih =>
    rw [List.findIdx?_cons, Outline.runTo]
    split
    · rfl
    · rw [ih, Option.map_map, Option.map_map]
      rfl

/-- Past the end of a slice that ends with the tree `last`, a fault quotes that tree. -/
theorem unexpected_gives_none (before : List (Tree P)) (last : Tree P) (message : String) :
    (unexpected (before ++ [last]) (before ++ [last]).length message).Gives
      (.ok (Outline.unexpected message last none)) := by
  unfold unexpected
  rw [List.getElem?_eq_none (Nat.le_refl _)]
  refine .access_bind (lastElement_append before last) ?_
  rw [List.length_append]
  refine .access_bind (difference_add_right ..) ?_
  refine .access_bind (sliceFrom_append before [last]) ?_
  rw [Tree.render_singleton]
  exact .pure _

/-- Past the end of a slice, a fault quotes the last tree. -/
theorem unexpected_gives_end (first : Tree P) (rest : List (Tree P)) (message : String) :
    (unexpected (first :: rest) (first :: rest).length message).Gives
      (.ok (Outline.unexpected message (rest.getLastD first) none)) := by
  have hfault := unexpected_gives_none (first :: rest).dropLast
    ((first :: rest).getLast (List.cons_ne_nil _ _)) message
  rwa [List.dropLast_concat_getLast, List.getLast_eq_getLastD] at hfault

/-- A tree that is asked for is accessed in range, also where it is missing. -/
theorem require_gives {α : Type} (message : String) (read? : Tree P → Option α)
    (before : List (Tree P)) (last : Tree P) (trees : List (Tree P)) :
    (require message read? (before ++ last :: trees) (before.length + 1)).Gives
      ((Outline.next message read? last trees).map Outline.Step.value) := by
  unfold require
  cases trees with
  | nil =>
    rw [List.getElem?_eq_none (by simp)]
    have hfault := unexpected_gives_none before last message
    rw [List.length_append] at hfault
    exact hfault.bind_ok (.throw _)
  | cons tree rest =>
    have htree : (before ++ last :: tree :: rest)[before.length + 1]? = some tree := by simp
    rw [htree, Option.bind_some, Outline.next]
    cases read? tree with
    | some value => exact .pure value
    | none =>
      unfold unexpected
      rw [htree]
      exact .throw _

/-- The slices in front of a semicolon and behind it are in range. -/
theorem splitRun_gives (after : P) (elements : List (Tree P)) :
    (splitRun after elements).Gives
      ((Outline.runToSemicolon after elements).map fun run => (run.trees, run.rest)) := by
  unfold splitRun Outline.runToSemicolon
  rw [findIdx?_eq_runTo]
  cases hrun : Outline.runTo (Tree.isKind .semicolon) elements with
  | none => exact .throw _
  | some run =>
    obtain ⟨separator, rfl, -⟩ := Outline.runTo_eq_some hrun
    have hrest := sliceFrom_append (run.trees ++ [separator]) run.rest
    rw [List.append_assoc, List.length_append] at hrest
    exact .access_bind (sliceTo_append ..) (.access_bind hrest (.pure _))

/-- The span from the first tree to the last one before the rest is in range. -/
theorem spanOf_gives {elements rest : List (Tree P)} {first last : Tree P}
    (before : List (Tree P)) (hfirst : elements[0]? = some first)
    (hlast : elements = before ++ last :: rest) :
    (spanOf elements rest).Gives (.ok ⟨first.span.start, last.span.stop⟩) := by
  have hconsumed : difference elements.length rest.length = some (before.length + 1) := by
    have hlength : elements.length = before.length + 1 + rest.length := by
      rw [hlast, List.length_append, List.length_cons]
      omega
    rw [hlength, difference_add_right]
  have hfinal : difference (max (before.length + 1) 1) 1 = some before.length := by
    rw [Nat.max_eq_left (Nat.le_add_left 1 _), difference_add_right]
  have helement : element elements before.length = some last := by
    rw [hlast]
    exact element_append before rest last
  exact .access_bind hconsumed (.access_bind hfinal (.access_bind helement
    (.access_bind hfirst (.pure _))))

/-- The span of a statement that ends with a run, which ends with its separator. -/
theorem spanOf_run_gives {elements trees : List (Tree P)} {first : Tree P} {after : P}
    {run : Outline.Run P} (before : List (Tree P)) (hfirst : elements[0]? = some first)
    (hlast : elements = before ++ trees) (h : Outline.runToSemicolon after trees = .ok run) :
    (spanOf elements run.rest).Gives (.ok ⟨first.span.start, run.stop⟩) := by
  obtain ⟨separator, rfl, -, hstop, -⟩ := Outline.runTo_eq_some (Outline.runToSemicolon_ok h)
  rw [hstop]
  exact spanOf_gives (before ++ run.trees) hfirst (by rw [hlast, List.append_assoc])

/-- A declaration is cut off in range. -/
theorem splitDeclare_gives (first : Tree P) (rest : List (Tree P)) :
    (splitDeclare (first :: rest)).Gives (Outline.cutDeclare first rest) := by
  refine (require_gives _ _ [] first rest).bind_map fun name hname => ?_
  obtain ⟨rfl, -⟩ := Outline.next_ok hname
  refine (require_gives _ _ [first] name.tree name.rest).bind_map fun colon hcolon => ?_
  obtain ⟨hrest, -⟩ := Outline.next_ok hcolon
  rw [hrest, List.drop_succ_cons, List.drop_succ_cons, List.drop_succ_cons, List.drop_zero,
    findIdx?_eq_runTo]
  cases htype : Outline.runTo (Tree.isOperator "=") colon.rest with
  | none =>
    have hfault := unexpected_gives_end first (name.tree :: colon.tree :: colon.rest)
      "expected `=` in declaration"
    rw [List.getLastD_cons, List.getLastD_cons] at hfault
    exact hfault.bind_ok (.throw _)
  | some type =>
    obtain ⟨sign, hsign, -, hstop, -⟩ := Outline.runTo_eq_some htype
    simp only [Option.map_some, hsign, hstop]
    have hfollowing := sliceFrom_append
      (first :: name.tree :: colon.tree :: (type.trees ++ [sign])) type.rest
    have helement := element_append
      (first :: name.tree :: colon.tree :: type.trees) type.rest sign
    have hslice := slice_append [first, name.tree, colon.tree] type.trees (sign :: type.rest)
    simp only [List.cons_append, List.append_assoc, List.nil_append, List.length_cons,
      List.length_append, List.length_nil] at hfollowing helement hslice
    refine .access_bind hfollowing (.access_bind helement ?_)
    refine (splitRun_gives sign.span.stop type.rest).bind_map fun value hvalue => ?_
    refine .access_bind hslice ?_
    exact (spanOf_run_gives (first :: name.tree :: colon.tree :: (type.trees ++ [sign]))
      rfl (by simp) hvalue).bind_ok (.pure _)

/-- A branch is cut off in range. -/
theorem splitBranch_gives (first : Tree P) (rest : List (Tree P)) :
    (splitBranch (first :: rest)).Gives (Outline.cutBranch first rest) := by
  refine (require_gives _ _ [] first rest).bind_map fun condition hcondition => ?_
  obtain ⟨rfl, -⟩ := Outline.next_ok hcondition
  refine (require_gives _ _ [first] condition.tree condition.rest).bind_map fun yes hyes => ?_
  obtain ⟨hrest, -⟩ := Outline.next_ok hyes
  rw [hrest]
  refine (require_gives _ _ [first, condition.tree] yes.tree yes.rest).bind_map
    fun otherwise hotherwise => ?_
  obtain ⟨hrest, -⟩ := Outline.next_ok hotherwise
  rw [hrest]
  refine (require_gives _ _ [first, condition.tree, yes.tree] otherwise.tree
    otherwise.rest).bind_map fun no hno => ?_
  obtain ⟨hrest, -⟩ := Outline.next_ok hno
  rw [hrest]
  refine .access_bind (sliceFrom_append [first, condition.tree, yes.tree, otherwise.tree, no.tree]
    no.rest) ?_
  exact (spanOf_gives [first, condition.tree, yes.tree, otherwise.tree] rfl rfl).bind_ok (.pure _)

/-- A loop is cut off in range. -/
theorem splitLoop_gives (first : Tree P) (rest : List (Tree P)) :
    (splitLoop (first :: rest)).Gives (Outline.cutLoop first rest) := by
  refine (require_gives _ _ [] first rest).bind_map fun condition hcondition => ?_
  obtain ⟨rfl, -⟩ := Outline.next_ok hcondition
  refine (require_gives _ _ [first] condition.tree condition.rest).bind_map fun body hbody => ?_
  obtain ⟨hrest, -⟩ := Outline.next_ok hbody
  rw [hrest]
  refine .access_bind (sliceFrom_append [first, condition.tree, body.tree] body.rest) ?_
  exact (spanOf_gives [first, condition.tree] rfl rfl).bind_ok (.pure _)

/-- A run that does not begin with its semicolon is not empty. -/
theorem runToSemicolon_trees_ne_nil {after : P} {second : Tree P} {rest : List (Tree P)}
    {run : Outline.Run P} (h : Outline.runToSemicolon after (second :: rest) = .ok run)
    (hsecond : ¬second.isKind .semicolon) : run.trees ≠ [] := by
  obtain ⟨separator, htrees, hends, -⟩ := Outline.runTo_eq_some (Outline.runToSemicolon_ok h)
  intro hnil
  rw [hnil] at htrees
  cases htrees
  exact hsecond hends

/-- A return is cut off in range. -/
theorem splitReturn_gives (first : Tree P) (rest : List (Tree P)) :
    (splitReturn (first :: rest)).Gives (Outline.cutReturn first rest) := by
  unfold splitReturn Outline.cutReturn
  cases rest with
  | nil => exact .access_bind rfl (.throw _)
  | cons second rest =>
    rw [List.getElem?_cons_succ, List.getElem?_cons_zero]
    by_cases hsemicolon : second.isKind .semicolon
    · simp only [hsemicolon, if_true, Outline.runToSemicolon, Outline.runTo]
      refine .access_bind (sliceFrom_append [first, second] rest) ?_
      exact (spanOf_gives [first] rfl rfl).bind_ok (.pure _)
    · simp only [hsemicolon]
      refine .access_bind (sliceFrom_append [first] (second :: rest)) (.access_bind rfl ?_)
      refine (splitRun_gives first.span.stop (second :: rest)).bind_map fun value hvalue => ?_
      refine (spanOf_run_gives [first] rfl rfl hvalue).bind_ok ?_
      have hne : value.trees ≠ [] := runToSemicolon_trees_ne_nil hvalue hsemicolon
      cases htrees : value.trees with
      | nil => exact absurd htrees hne
      | cons tree trees => exact .pure _

/-- An assignment is cut off in range. -/
theorem splitAssign_gives (first equals : Tree P) (rest : List (Tree P)) :
    (splitAssign (first :: equals :: rest)).Gives (Outline.cutAssign first equals rest) := by
  unfold splitAssign Outline.cutAssign
  refine .access_bind rfl ?_
  cases first.token? .identifier with
  | none => exact .throw _
  | some target =>
    refine .access_bind (sliceFrom_append [first, equals] rest) (.access_bind rfl ?_)
    refine (splitRun_gives equals.span.stop rest).bind_map fun value hvalue => ?_
    exact (spanOf_run_gives [first, equals] rfl rfl hvalue).bind_ok (.pure _)

/-- An expression is cut off in range. -/
theorem splitExpression_gives (first : Tree P) (rest : List (Tree P)) :
    (splitExpression (first :: rest)).Gives (Outline.cutExpression first rest) := by
  refine .access_bind rfl ?_
  refine (splitRun_gives first.span.start (first :: rest)).bind_map fun value hvalue => ?_
  exact (spanOf_run_gives [] rfl rfl hvalue).bind_ok (.pure _)

/-- An assignment or an expression is cut off in range, also a lone tree. -/
theorem splitPlain_gives (first : Tree P) (rest : List (Tree P)) :
    (splitPlain (first :: rest)).Gives (Outline.cutPlain first rest) := by
  cases rest with
  | nil => exact .access_bind rfl (.access_bind (sliceFrom_append [first] []) (.pure _))
  | cons second rest =>
    rw [splitPlain, Outline.cutPlain, if_neg (by simp)]
    refine .access_bind rfl ?_
    by_cases hassign : second.isOperator "="
    · rw [if_pos hassign, if_pos hassign]
      exact splitAssign_gives first second rest
    · rw [if_neg hassign, if_neg hassign]
      exact splitExpression_gives first (second :: rest)

/-- A statement of any shape is cut off in range. -/
theorem splitFirst_gives (first : Tree P) (rest : List (Tree P)) :
    (splitFirst (first :: rest)).Gives (Outline.cutFirst first rest) := by
  unfold splitFirst Outline.cutFirst
  refine .access_bind rfl ?_
  split
  · exact splitDeclare_gives first rest
  split
  · exact splitBranch_gives first rest
  split
  · exact splitLoop_gives first rest
  split
  · exact splitReturn_gives first rest
  · exact splitPlain_gives first rest

/-! ## Blocks -/

/-- What is cut off by indices is what is cut off. -/
theorem splitFirst_run_eq_ok {first : Tree P} {rest : List (Tree P)} {cut : Cut P}
    (h : (splitFirst (first :: rest)).run = some (.ok cut)) :
    Outline.cutFirst first rest = .ok cut :=
  Option.some.inj ((splitFirst_gives first rest).symm.trans h)

/-- The statements of a slice. -/
def outlineTrees (elements : List (Tree P)) : Indexed P (List (Outline.Stmt P)) :=
  match elements with
  | [] => pure []
  | first :: rest =>
    match _cut : (splitFirst (first :: rest)).run with
    | none => ExceptT.mk none
    | some (.error fault) => throw fault
    | some (.ok ⟨.plain stmt, rest⟩) => do
      let stmts ← outlineTrees rest
      pure (stmt :: stmts)
    | some (.ok ⟨.branch condition yes no span, rest⟩) => do
      let yesStmts ← outlineTrees yes.trees
      let noStmts ← outlineTrees no.trees
      let stmts ← outlineTrees rest
      pure (.branch condition ⟨yesStmts, yes.span⟩ ⟨noStmts, no.span⟩ span :: stmts)
    | some (.ok ⟨.loop condition body span, rest⟩) => do
      let bodyStmts ← outlineTrees body.trees
      let stmts ← outlineTrees rest
      pure (.loop condition ⟨bodyStmts, body.span⟩ span :: stmts)
termination_by sizeOf elements
decreasing_by
  all_goals
    have hs := Outline.cutFirst_smaller (splitFirst_run_eq_ok ‹_›)
    have hr := hs.rest
    simp only [List.cons.sizeOf_spec] at hr ⊢
    first
    | omega
    | have := hs.branch rfl; omega
    | have := hs.loop rfl; omega

/-- Trees are outlined in range, also in the blocks of branches and loops. -/
theorem outlineTrees_gives (trees : List (Tree P)) :
    (outlineTrees trees).Gives (Outline.ofTrees trees) := by
  fun_induction outlineTrees trees with
  | case1 =>
    rw [Outline.ofTrees_nil]
    exact .pure []
  | case2 first rest hnone => cases (splitFirst_gives first rest).symm.trans hnone
  | case3 first rest fault hfault =>
    rw [Outline.ofTrees_error (Option.some.inj ((splitFirst_gives first rest).symm.trans hfault))]
    exact .throw fault
  | case4 first rest stmt after hcut ih =>
    rw [Outline.ofTrees_plain (splitFirst_run_eq_ok hcut)]
    exact ih.bind fun stmts _ => .pure _
  | case5 first rest condition yes no span after hcut ihYes ihNo ih =>
    rw [Outline.ofTrees_branch (splitFirst_run_eq_ok hcut)]
    exact ihYes.bind fun yesStmts _ => ihNo.bind fun noStmts _ => ih.bind fun stmts _ => .pure _
  | case6 first rest condition body span after hcut ihBody ih =>
    rw [Outline.ofTrees_loop (splitFirst_run_eq_ok hcut)]
    exact ihBody.bind fun bodyStmts _ => ih.bind fun stmts _ => .pure _

/-- The statements of a region, as a block. -/
def outlineRegion (region : Region P) : Indexed P (Outline.Block P) := do
  let stmts ← outlineTrees region.trees
  pure ⟨stmts, region.span⟩

/-- A region is outlined without going out of range. -/
theorem outlineRegion_gives (region : Region P) :
    (outlineRegion region).Gives (Outline.ofRegion region) := by
  unfold outlineRegion Outline.ofRegion
  cases hstmts : Outline.ofTrees region.trees with
  | error fault => exact Gives.bind_error (hstmts ▸ outlineTrees_gives region.trees)
  | ok stmts => exact Gives.bind_ok (hstmts ▸ outlineTrees_gives region.trees) (.pure _)

end Indexed

end LetWhile
