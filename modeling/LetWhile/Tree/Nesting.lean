import LetWhile.Fault.Basic
import LetWhile.Tree.Basic

/-!
# Nesting

A list of tokens becomes a list of trees by matching brackets. The tokens are read once, with the
groups that are still open kept innermost first, so a bracket that matches nothing is reported where
it is met, and an opening beyond the limit where it would open.
-/

namespace LetWhile

namespace Nesting
variable {P : Type}

/-- A group that is still open: its bracket, where it starts, and what was read before it in the
enclosing group, last first. -/
structure Opened (P : Type) where
  bracket : Bracket
  start : P
  before : List (Tree P)

/-- What a closing bracket should have been, given the groups that are open. -/
def expectedClosing : List (Opened P) → String
  | [] => "no closing bracket"
  | group :: _ => group.bracket.closing

/-- The trees of the remaining tokens, after `before` was read inside the open groups. -/
def nestFrom (limit : Nat) (opened : List (Opened P)) (before : List (Tree P)) :
    List (Token P) → Outcome P (List (Tree P))
  | [] =>
    match opened with
    | [] => .ok before.reverse
    | group :: _ => .error ⟨.unclosedBracket group.bracket.opening, group.start⟩
  | token :: tokens =>
    match token.kind with
    | .opening bracket =>
      if limit ≤ opened.length then .error ⟨.nestingTooDeep limit, token.span.start⟩
      else nestFrom limit (⟨bracket, token.span.start, before⟩ :: opened) [] tokens
    | .closing bracket =>
      let mismatch : Fault P :=
        ⟨.mismatchedBracket (expectedClosing opened) token.text, token.span.start⟩
      match opened with
      | [] => .error mismatch
      | group :: outer =>
        if group.bracket = bracket then
          let span := ⟨group.start, token.span.stop⟩
          nestFrom limit outer (.group bracket before.reverse span :: group.before) tokens
        else .error mismatch
    | _ => nestFrom limit opened (.leaf token :: before) tokens

/-- The span of a list of tokens; an empty one lies at `origin`. -/
def spanOf (origin : P) (tokens : List (Token P)) : Span P :=
  match tokens.head?, tokens.getLast? with
  | some first, some last => first.span.through last.span
  | _, _ => ⟨origin, origin⟩

end Nesting

/-- Tokens nested by their brackets, at most `limit` deep. -/
def nest {P : Type} (limit : Nat) (origin : P) (tokens : List (Token P)) : Outcome P (Region P) :=
  (Nesting.nestFrom limit [] [] tokens).map fun trees => ⟨trees, Nesting.spanOf origin tokens⟩

end LetWhile
