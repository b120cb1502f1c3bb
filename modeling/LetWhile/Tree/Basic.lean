import LetWhile.Token.Basic

/-!
# Token trees

Tokens nested by their brackets. A bracket pair is a group, whose span runs from the opening to the
closing bracket; the brackets themselves are no leaves. All later stages work on lists of trees, and
call such a list, where it is a part of a block, a slice.
-/

namespace LetWhile

/-- A token, or a bracketed group of trees. -/
inductive Tree (P : Type)
  | leaf (token : Token P)
  | group (bracket : Bracket) (children : List (Tree P)) (span : Span P)

/-- The trees of a block or a group, with the span of the whole. -/
structure Region (P : Type) where
  trees : List (Tree P)
  span : Span P

namespace Tree
variable {P : Type}

/-- Where a tree was read from. -/
def span : Tree P → Span P
  | leaf token => token.span
  | group _ _ span => span

/-! ## Asking what a tree is -/

/-- The token of a leaf of the given kind. -/
def token? (kind : Kind) : Tree P → Option (Token P)
  | leaf token => if token.kind = kind then some token else none
  | group .. => none

/-- Whether a tree is a leaf of the given kind. -/
def isKind (kind : Kind) : Tree P → Bool
  | leaf token => token.kind = kind
  | group .. => false

/-- Whether a tree is the given operator. -/
def isOperator (symbol : String) : Tree P → Bool
  | leaf token => token.kind = .operator && token.text == symbol
  | group .. => false

/-- The contents of a group with the given bracket. -/
def region? (bracket : Bracket) : Tree P → Option (Region P)
  | group b children span => if b = bracket then some ⟨children, span⟩ else none
  | leaf _ => none

/-! ## Written form -/

mutual

/-- A tree as faults quote it: the texts of its tokens with one space between neighbours, and none
just inside a bracket. -/
def text : Tree P → String
  | leaf token => token.text
  | group bracket children _ =>
    bracket.opening ++ " ".intercalate (texts children) ++ bracket.closing

/-- The written forms of a list of trees. -/
def texts : List (Tree P) → List String
  | [] => []
  | tree :: rest => tree.text :: texts rest

end

/-- Trees have their texts one by one. -/
@[simp]
theorem texts_eq_map (trees : List (Tree P)) : texts trees = trees.map text := by
  induction trees with
  | nil => rfl
  | cons tree rest ih => simp [texts, ih]

/-- A slice as faults quote it. -/
def render (trees : List (Tree P)) : String := " ".intercalate (texts trees)

/-! ## Slices -/

/-- Where a slice starts; an empty one lies at `origin`. -/
def startOr (origin : P) : List (Tree P) → P
  | [] => origin
  | tree :: _ => tree.span.start

/-- Where a slice stops; an empty one lies at `origin`. -/
def stopOr (origin : P) : List (Tree P) → P
  | [] => origin
  | tree :: rest => stopOr tree.span.stop rest

/-- A slice cut at every comma. An empty slice has no parts. -/
def commaParts : List (Tree P) → List (List (Tree P))
  | [] => []
  | tree :: rest => parts (tree :: rest)
where
  /-- A slice cut at every comma, with one part more than there are commas. -/
  parts : List (Tree P) → List (List (Tree P))
    | [] => [[]]
    | tree :: rest =>
      if tree.isKind .comma then [] :: parts rest
      else match parts rest with
        | [] => [[tree]]
        | part :: more => (tree :: part) :: more

end Tree

end LetWhile
