import LetWhile.Ty.Basic

/-!
# Scopes

A scope is a stack of frames, one for each block that is being checked, and is never empty. A frame
holds the names declared directly in its block, and a name means what the innermost frame that
declares it says.
-/

namespace LetWhile

/-- The names declared in one block with their types, the latest first. -/
abbrev Frame := List (String × Ty)

/-- The frames around a place in a program. -/
structure Scope where
  inner : Frame
  outer : List Frame

namespace Scope

/-- The scope of a program: one frame without names. -/
def root : Scope := ⟨[], []⟩

/-- The frames from the innermost outwards. -/
def frames (scope : Scope) : List Frame := scope.inner :: scope.outer

/-- The type of a name. -/
def find? (scope : Scope) (name : String) : Option Ty :=
  scope.frames.findSome? (List.lookup name)

/-- Whether the innermost frame declares a name. -/
def declares (scope : Scope) (name : String) : Bool := (scope.inner.lookup name).isSome

/-- The scope with one more name in its innermost frame. -/
def declare (scope : Scope) (name : String) (type : Ty) : Scope :=
  ⟨(name, type) :: scope.inner, scope.outer⟩

/-- The scope inside a block that begins with the names of `frame`. -/
def enter (scope : Scope) (frame : Frame) : Scope := ⟨frame, scope.frames⟩

/-- The scope outside the innermost block. The outermost frame stays. -/
def leave (scope : Scope) : Scope :=
  match scope.outer with
  | [] => scope
  | frame :: outer => ⟨frame, outer⟩

end Scope

end LetWhile
