import LetWhile.Proofs.Access.Basic
import LetWhile.Proofs.Tree.Matching

/-!
# Nesting with a stack

Brackets are matched with a stack of groups, of which the outermost holds the trees at top level.
The stack is never empty, so there is an innermost group to report as left open, and an outermost
one to take off at the end (`Indexed.nest_gives`).
-/

namespace LetWhile

variable {P : Type}

namespace Indexed

/-! ## Stacks -/

/-- A group on the stack, with the trees in it so far. The outermost has no bracket. -/
structure Group (P : Type) where
  bracket? : Option Bracket
  children : List (Tree P)
  span : Span P

/-- The group with one more tree in it. -/
def Group.add (group : Group P) (tree : Tree P) : Group P :=
  { group with children := group.children ++ [tree] }

/-- The stack with one more tree in its last group. -/
def addToLast (tree : Tree P) : List (Group P) → List (Group P)
  | [] => []
  | [group] => [group.add tree]
  | group :: rest => group :: addToLast tree rest

/-- A tree is added to the last group of the stack. -/
theorem addToLast_append (tree : Tree P) (stack : List (Group P)) (group : Group P) :
    addToLast tree (stack ++ [group]) = stack ++ [group.add tree] := by
  induction stack with
  | nil => rfl
  | cons first rest ih =>
    cases rest with
    | nil => rfl
    | cons second rest =>
      rw [List.cons_append, List.cons_append, addToLast, ← List.cons_append, ih]
      · rfl
      · exact List.cons_ne_nil _ _

/-! ## Nesting -/

/-- The stack after one more token. -/
def nestStep (limit : Nat) (stack : List (Group P)) (token : Token P) :
    Outcome P (List (Group P)) :=
  match token.kind with
  | .opening bracket =>
    if limit < stack.length then .error ⟨.nestingTooDeep limit, token.span.start⟩
    else .ok (stack ++ [⟨some bracket, [], token.span⟩])
  | .closing bracket =>
    let innermost := stack.getLast?.bind Group.bracket?
    if innermost ≠ some bracket then
      let expected := (innermost.map Bracket.closing).getD "no closing bracket"
      .error ⟨.mismatchedBracket expected token.text, token.span.start⟩
    else
      match stack.getLast? with
      | none => .ok stack
      | some group =>
        let span := ⟨group.span.start, token.span.stop⟩
        .ok (addToLast (.group bracket group.children span) stack.dropLast)
  | _ => .ok (addToLast (.leaf token) stack)

/-- The trees at top level, once all tokens are read. -/
def closeAll (stack : List (Group P)) : Indexed P (Region P) :=
  if stack.length ≠ 1 then do
    let unclosed ← access (lastElement stack)
    let bracket := (unclosed.bracket?.map Bracket.opening).getD ""
    throw ⟨.unclosedBracket bracket, unclosed.span.start⟩
  else do
    let top ← access (element stack 0)
    pure ⟨top.children, top.span⟩

/-- Tokens nested by their brackets, at most `limit` deep. -/
def nest (limit : Nat) (origin : P) (tokens : List (Token P)) : Indexed P (Region P) := do
  let top : Group P := ⟨none, [], Nesting.spanOf origin tokens⟩
  let stack ← ofOutcome (tokens.foldlM (nestStep limit) [top])
  closeAll stack

/-! ## In range -/

open Nesting (Opened nestFrom)

/-- A stack holds the groups that are open, and what was read inside each of them. -/
inductive Holds (top : Span P) : List (Opened P) → List (Tree P) → List (Group P) → Prop
  | top {before : List (Tree P)} : Holds top [] before [⟨none, before.reverse, top⟩]
  | group (group : Opened P) {outer : List (Opened P)} {before : List (Tree P)}
      {stack : List (Group P)} (stop : P) : Holds top outer group.before stack →
    Holds top (group :: outer) before
      (stack ++ [⟨some group.bracket, before.reverse, ⟨group.start, stop⟩⟩])

namespace Holds
variable {top : Span P} {opened : List (Opened P)} {before : List (Tree P)}
  {stack : List (Group P)}

/-- The stack has one group more than there are open ones. -/
theorem length (h : Holds top opened before stack) : stack.length = opened.length + 1 := by
  induction h with
  | top => rfl
  | group _ _ _ ih => simp [ih]

/-- A tree goes into the innermost group on both sides. -/
theorem add (h : Holds top opened before stack) (tree : Tree P) :
    Holds top opened (tree :: before) (addToLast tree stack) := by
  cases h with
  | top =>
    have hadd : [(⟨none, (tree :: before).reverse, top⟩ : Group P)] =
        addToLast tree [⟨none, before.reverse, top⟩] := by
      simp [addToLast, Group.add]
    rw [← hadd]
    exact .top
  | group group stop houter =>
    rw [addToLast_append]
    simp only [Group.add]
    rw [← List.reverse_cons]
    exact .group _ stop houter

end Holds

/-- What one token does to the stack, as the scan of the tokens sees it. -/
theorem nestStep_holds {limit : Nat} {top : Span P} {opened : List (Opened P)}
    {before : List (Tree P)} {stack : List (Group P)} (h : Holds top opened before stack)
    (token : Token P) :
    (∃ fault, nestStep limit stack token = .error fault ∧
      ∀ tokens, nestFrom limit opened before (token :: tokens) = .error fault) ∨
    ∃ stack' opened' before', nestStep limit stack token = .ok stack' ∧
      Holds top opened' before' stack' ∧
      ∀ tokens, nestFrom limit opened before (token :: tokens) =
        nestFrom limit opened' before' tokens := by
  rcases token.kind.bracket_cases with hk | ⟨bracket, hk⟩ | ⟨bracket, hk⟩
  · refine .inr ⟨_, _, _, ?_, h.add (.leaf token), fun tokens => Nesting.nestFrom_leaf tokens hk⟩
    unfold nestStep
    split
    · simp_all [Kind.bracket?]
    · simp_all [Kind.bracket?]
    · rfl
  · unfold nestStep
    simp only [hk, h.length]
    split
    · rename_i hlimit
      exact .inl ⟨_, rfl, fun tokens => Nesting.nestFrom_tooDeep tokens hk (by omega)⟩
    · rename_i hlimit
      exact .inr ⟨_, _, _, rfl, .group ⟨bracket, token.span.start, before⟩ _ h,
        fun tokens => Nesting.nestFrom_opening tokens hk (by omega)⟩
  · unfold nestStep
    simp only [hk]
    cases h with
    | top =>
      exact .inl ⟨_, rfl, fun tokens => Nesting.nestFrom_unopened tokens hk⟩
    | @group group outer _ stack stop houter =>
      simp only [List.getLast?_concat, Option.bind_some, List.dropLast_concat]
      split
      · rename_i hne
        refine .inl ⟨_, rfl, fun tokens => Nesting.nestFrom_mismatched tokens hk fun heq => ?_⟩
        exact hne (congrArg some heq)
      · rename_i heq
        cases Decidable.not_not.1 heq
        exact .inr ⟨_, _, _, rfl, houter.add _, fun tokens => Nesting.nestFrom_closing tokens hk⟩

/-- The end of the tokens is handled in range, too. -/
theorem closeAll_gives {limit : Nat} {top : Span P} {opened : List (Opened P)}
    {before : List (Tree P)} {stack : List (Group P)} (h : Holds top opened before stack) :
    (closeAll stack).Gives ((nestFrom limit opened before []).map fun trees => ⟨trees, top⟩) := by
  unfold closeAll
  cases h with
  | top => exact .access_bind rfl (.pure _)
  | @group group outer _ stack stop houter =>
    rw [if_pos (by simp [houter.length])]
    exact .access_bind (lastElement_append stack _) (.throw _)

/-- Tokens are nested in range one by one. The invariant is that the stack holds the groups that are
open. -/
theorem foldlM_nestStep_gives {limit : Nat} {top : Span P} (tokens : List (Token P)) :
    ∀ {opened : List (Opened P)} {before : List (Tree P)} {stack : List (Group P)},
      Holds top opened before stack →
        Gives (ofOutcome (tokens.foldlM (nestStep limit) stack) >>= closeAll)
          ((nestFrom limit opened before tokens).map fun trees => ⟨trees, top⟩) := by
  induction tokens with
  | nil => exact fun h => (Gives.ofOutcome (.ok _)).bind_ok (closeAll_gives h)
  | cons token tokens ih =>
    intro opened before stack h
    rw [List.foldlM_cons]
    rcases nestStep_holds h token with ⟨fault, hstep, hfrom⟩ |
      ⟨stack', opened', before', hstep, hholds, hfrom⟩
    · rw [hstep, hfrom]
      exact (Gives.ofOutcome (.error fault)).bind_error
    · rw [hstep, hfrom]
      exact ih hholds

/-- Brackets are matched without going out of range. -/
theorem nest_gives (limit : Nat) (origin : P) (tokens : List (Token P)) :
    (nest limit origin tokens).Gives (LetWhile.nest limit origin tokens) :=
  foldlM_nestStep_gives tokens .top

end Indexed

end LetWhile
