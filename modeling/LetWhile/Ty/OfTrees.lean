import LetWhile.Fault.Basic
import LetWhile.Tree.Basic

/-!
# Reading types

A type is written as a name or as `(A, B) -> R`, whose result may again be a function type. A type
in parentheses is that type. Each level of types uses up one unit of the budget of nested readings.
-/

namespace LetWhile

namespace Ty
variable {P : Type}

/-- The type that a slice spells. `origin` locates an empty slice, and `limit` is the budget that
reading began with. -/
def ofTrees (limit : Nat) : Nat → P → List (Tree P) → Outcome P Ty
  | 0, origin, trees => .error ⟨.nestingTooDeep limit, Tree.startOr origin trees⟩
  | budget + 1, origin, trees =>
    let invalid : Outcome P Ty :=
      .error ⟨.invalidType (Tree.render trees), Tree.startOr origin trees⟩
    match trees with
    | [.leaf token] => if token.kind = .typeName then .ok (name token.text) else invalid
    | [.group .paren children span] => ofTrees limit budget span.start children
    | .group .paren params span :: arrow :: tree :: rest =>
      if arrow.isKind .arrow then do
        let params ← (Tree.commaParts params).mapM (ofTrees limit budget span.start)
        let result ← ofTrees limit budget arrow.span.stop (tree :: rest)
        .ok (function params result)
      else invalid
    | _ => invalid

end Ty

end LetWhile
