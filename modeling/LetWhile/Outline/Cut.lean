import LetWhile.Fault.Basic
import LetWhile.Outline.Basic

/-!
# Cutting off a statement

The first statement of a slice, and what follows it. The first tree decides which shape a statement
must have: a reserved word gives its shape, a lone tree is an expression that needs no semicolon, an
`=` in second place makes an assignment, and all else is an expression up to the next semicolon.
-/

namespace LetWhile

namespace Outline
variable {P : Type}

/-- A statement cut off a slice, with the regions of its blocks still to be outlined. -/
inductive Piece (P : Type)
  | plain (stmt : Stmt P)
  | branch (condition yes no : Region P) (span : Span P)
  | loop (condition body : Region P) (span : Span P)

/-- A piece and the trees after it. -/
structure Cut (P : Type) where
  piece : Piece P
  rest : List (Tree P)

/-! ## Steps -/

/-- The fault of a slice that goes on with `found` after the tree `last`, where something else is
needed. -/
def unexpected (message : String) (last : Tree P) (found : Option (Tree P)) : Fault P :=
  match found with
  | some tree => ⟨.unexpectedToken tree.text message, tree.span.start⟩
  | none => ⟨.unexpectedToken last.text (message ++ " before end of block"), last.span.stop⟩

/-- A tree that was asked for: what it was read as, the tree itself and the trees after it. -/
structure Step (P α : Type) where
  value : α
  tree : Tree P
  rest : List (Tree P)

/-- The next tree, read by `read?`, which comes after the tree `last`. -/
def next {α : Type} (message : String) (read? : Tree P → Option α) (last : Tree P) :
    List (Tree P) → Outcome P (Step P α)
  | [] => .error (unexpected message last none)
  | tree :: rest =>
    match read? tree with
    | some value => .ok ⟨value, tree, rest⟩
    | none => .error (unexpected message last (some tree))

/-- A slice up to a separator: the trees before it, where it stops and the trees after it. -/
structure Run (P : Type) where
  trees : List (Tree P)
  stop : P
  rest : List (Tree P)

/-- The trees up to the first one that `ends` holds of. -/
def runTo (ends : Tree P → Bool) : List (Tree P) → Option (Run P)
  | [] => none
  | tree :: rest =>
    if ends tree then some ⟨[], tree.span.stop, rest⟩
    else (runTo ends rest).map fun run => ⟨tree :: run.trees, run.stop, run.rest⟩

/-- The trees up to the first semicolon. The slice follows the position `after`. -/
def runToSemicolon (after : P) (trees : List (Tree P)) : Outcome P (Run P) :=
  match runTo (Tree.isKind .semicolon) trees with
  | some run => .ok run
  | none => .error ⟨.missingSemicolon, Tree.stopOr after trees⟩

theorem next_ok {α : Type} {message : String} {read? : Tree P → Option α} {last : Tree P}
    {trees : List (Tree P)} {step : Step P α} (h : next message read? last trees = .ok step) :
    trees = step.tree :: step.rest ∧ read? step.tree = some step.value := by
  cases trees with
  | nil => simp [next] at h
  | cons tree rest =>
    simp only [next] at h
    split at h
    · cases h; exact ⟨rfl, by assumption⟩
    · simp at h

/-- A run and what follows it make up the slice, with one separator between them. -/
theorem runTo_eq_some {ends : Tree P → Bool} {trees : List (Tree P)} {run : Run P}
    (h : runTo ends trees = some run) :
    ∃ separator, trees = run.trees ++ separator :: run.rest ∧ ends separator = true ∧
      run.stop = separator.span.stop ∧ ∀ tree ∈ run.trees, ends tree = false := by
  induction trees generalizing run with
  | nil => simp [runTo] at h
  | cons tree rest ih =>
    simp only [runTo] at h
    split at h
    · cases h; exact ⟨tree, by simpa⟩
    · obtain ⟨run, h', rfl⟩ := Option.map_eq_some_iff.1 h
      obtain ⟨separator, rfl, hs⟩ := ih h'
      exact ⟨separator, by simp_all⟩

theorem runToSemicolon_ok {after : P} {trees : List (Tree P)} {run : Run P}
    (h : runToSemicolon after trees = .ok run) :
    runTo (Tree.isKind .semicolon) trees = some run := by
  simp only [runToSemicolon] at h
  split at h
  · cases h; assumption
  · simp at h

/-- The shape that an `if` must have. -/
def branchShape : String := "expected `if (condition) \x7b ... \x7d else \x7b ... \x7d`"

/-- The shape that a `while` must have. -/
def loopShape : String := "expected `while (condition) \x7b ... \x7d`"

/-! ## Statements -/

/-- The declaration that begins with the tree `first`. -/
def cutDeclare (first : Tree P) (rest : List (Tree P)) : Outcome P (Cut P) := do
  let name ← next "expected identifier after `let`" (Tree.token? .identifier) first rest
  let colon ← next "expected `:` after variable name" (Tree.token? .colon) name.tree name.rest
  match runTo (Tree.isOperator "=") colon.rest with
  | none =>
    let last := colon.rest.getLastD colon.tree
    .error (unexpected "expected `=` in declaration" last none)
  | some type =>
    let value ← runToSemicolon type.stop type.rest
    let span := ⟨first.span.start, value.stop⟩
    .ok ⟨.plain (.declare name.value.text type.trees value.trees span), value.rest⟩

/-- The branch that begins with the tree `first`. -/
def cutBranch (first : Tree P) (rest : List (Tree P)) : Outcome P (Cut P) := do
  let condition ← next branchShape (Tree.region? .paren) first rest
  let yes ← next branchShape (Tree.region? .brace) condition.tree condition.rest
  let otherwise ← next branchShape (Tree.token? (.keyword .elseWord)) yes.tree yes.rest
  let no ← next branchShape (Tree.region? .brace) otherwise.tree otherwise.rest
  .ok ⟨.branch condition.value yes.value no.value (first.span.through no.tree.span), no.rest⟩

/-- The loop that begins with the tree `first`. -/
def cutLoop (first : Tree P) (rest : List (Tree P)) : Outcome P (Cut P) := do
  let condition ← next loopShape (Tree.region? .paren) first rest
  let body ← next loopShape (Tree.region? .brace) condition.tree condition.rest
  .ok ⟨.loop condition.value body.value (first.span.through body.tree.span), body.rest⟩

/-- The return that begins with the tree `first`. -/
def cutReturn (first : Tree P) (rest : List (Tree P)) : Outcome P (Cut P) := do
  let value ← runToSemicolon first.span.stop rest
  let span := ⟨first.span.start, value.stop⟩
  match value.trees with
  | [] => .ok ⟨.plain (.returnVoid span), value.rest⟩
  | trees => .ok ⟨.plain (.returnValue trees span), value.rest⟩

/-- The assignment to the tree `first`, after whose `=` the slice `rest` follows. -/
def cutAssign (first equals : Tree P) (rest : List (Tree P)) : Outcome P (Cut P) :=
  match first.token? .identifier with
  | none => .error ⟨.invalidTarget first.text, first.span.start⟩
  | some target => do
    let value ← runToSemicolon equals.span.stop rest
    let span := ⟨first.span.start, value.stop⟩
    .ok ⟨.plain (.assign target.text value.trees span), value.rest⟩

/-- The expression statement that begins with the tree `first`. -/
def cutExpression (first : Tree P) (rest : List (Tree P)) : Outcome P (Cut P) := do
  let value ← runToSemicolon first.span.start (first :: rest)
  .ok ⟨.plain (.expression value.trees ⟨first.span.start, value.stop⟩), value.rest⟩

/-- The statement that begins with the tree `first` and with no reserved word. -/
def cutPlain (first : Tree P) : List (Tree P) → Outcome P (Cut P)
  | [] => .ok ⟨.plain (.expression [first] first.span), []⟩
  | second :: rest =>
    if second.isOperator "=" then cutAssign first second rest
    else cutExpression first (second :: rest)

/-- The first statement of the slice `first :: rest`. -/
def cutFirst (first : Tree P) (rest : List (Tree P)) : Outcome P (Cut P) :=
  if first.isKind (.keyword .letWord) then cutDeclare first rest
  else if first.isKind (.keyword .ifWord) then cutBranch first rest
  else if first.isKind (.keyword .whileWord) then cutLoop first rest
  else if first.isKind (.keyword .returnWord) then cutReturn first rest
  else cutPlain first rest

end Outline

end LetWhile
