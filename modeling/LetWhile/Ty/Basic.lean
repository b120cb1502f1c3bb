/-!
# Types

A type is a name, such as `Int`, or a function type with its parameters and its result. Types are
the same if they are written the same: `same` decides this by structure, `same_iff` says that it
decides equality, and `dedup` keeps the first of several equal types.
-/

namespace LetWhile

/-- A type of the language. -/
inductive Ty
  | name (name : String)
  | function (params : List Ty) (result : Ty)

namespace Ty

/-- The type of numbers. -/
def int : Ty := name "Int"

/-- The type of truth values. -/
def bool : Ty := name "Bool"

/-- The type of texts. -/
def string : Ty := name "String"

/-- The type of `return` without a value. -/
def void : Ty := name "Void"

/-! ## Written form -/

mutual

/-- A type as it is written. -/
def text : Ty → String
  | name n => n
  | function params result => "(" ++ ", ".intercalate (texts params) ++ ") -> " ++ result.text

/-- Several types as they are written. -/
def texts : List Ty → List String
  | [] => []
  | t :: rest => t.text :: texts rest

end

/-- Types have their texts one by one. -/
@[simp]
theorem texts_eq_map (types : List Ty) : texts types = types.map text := by
  induction types with
  | nil => rfl
  | cons t rest ih => simp [texts, ih]

/-! ## Equality -/

mutual

/-- Whether two types have the same structure and the same names. -/
def same : Ty → Ty → Bool
  | name a, name b => a == b
  | function ps r, function qs s => sameAll ps qs && r.same s
  | _, _ => false

/-- Whether two lists hold the same types, pair by pair. -/
def sameAll : List Ty → List Ty → Bool
  | [], [] => true
  | t :: ts, u :: us => t.same u && sameAll ts us
  | _, _ => false

end

mutual

/-- Structural sameness is equality. -/
theorem same_iff : ∀ {a b : Ty}, a.same b = true ↔ a = b
  | name a, name b => by simp [same]
  | function ps r, function qs s => by simp [same, sameAll_iff, same_iff (a := r)]
  | name _, function _ _ => by simp [same]
  | function _ _, name _ => by simp [same]

/-- Pairwise sameness is equality of lists. -/
theorem sameAll_iff : ∀ {l m : List Ty}, sameAll l m = true ↔ l = m
  | [], [] => by simp [sameAll]
  | t :: l, u :: m => by simp [sameAll, same_iff (a := t), sameAll_iff (l := l)]
  | [], _ :: _ => by simp [sameAll]
  | _ :: _, [] => by simp [sameAll]

end

instance : DecidableEq Ty := fun a b => decidable_of_iff (a.same b = true) same_iff

/-! ## Distinct types -/

/-- The types of a list that do not occur in `seen`, each once, in order of first occurrence. -/
def dedupFrom (seen : List Ty) : List Ty → List Ty
  | [] => []
  | t :: rest => if t ∈ seen then dedupFrom seen rest else t :: dedupFrom (t :: seen) rest

/-- The distinct types of a list, in order of first occurrence. -/
def dedup (types : List Ty) : List Ty := dedupFrom [] types

end Ty

end LetWhile
