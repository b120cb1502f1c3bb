import LetWhile.Token.Scan
import LetWhile.Program.OfTrees
import LetWhile.Typing.Check

/-!
# Sources

A source is a text with the name of the file it came from. From it come tokens, trees, expressions,
types and programs, all placed in that file, and a program that is well typed in a fresh session.
-/

namespace LetWhile

/-- A text and the name of its file. -/
structure Source where
  text : String
  file : String

namespace Source

/-- The name of the file of what is typed in. -/
def shell : String := "shell"

/-- How deep brackets, expressions, types and blocks may nest, unless another limit is set. -/
def depthLimit : Nat := 256

/-- The position of a byte offset in a source. -/
def place (source : Source) (offset : Nat) : Position := ⟨UInt32.ofNat offset, source.file⟩

/-- The tokens of a source. -/
def tokens (source : Source) : Outcome Position (List (Token Position)) :=
  (Token.scan source.text.toList).relocate source.place (List.map (Token.map source.place))

/-- The trees of a source, at most `limit` deep. `origin` locates a source without tokens. -/
def region (source : Source) (limit : Nat) (origin : Position) :
    Outcome Position (Region Position) :=
  source.tokens >>= nest limit origin

/-- The expression that a source spells. -/
def expr (source : Source) (limit : Nat) (origin : Position) :
    Outcome Position (Expr Position) := do
  let region ← source.region limit origin
  Expr.ofTrees limit limit origin region.trees

/-- The type that a source spells. -/
def type (source : Source) (limit : Nat) (origin : Position) : Outcome Position Ty := do
  let region ← source.region limit origin
  Ty.ofTrees limit limit origin region.trees

/-- The program that a source spells. -/
def program (source : Source) (limit : Nat) : Outcome Position (Block Position) :=
  source.tokens >>= Block.ofTokens limit (source.place 0)

end Source

/-- A well-typed program, the session after it and the types that it returns. -/
structure Checked where
  program : Block Position
  session : Session
  returns : List Ty

/-- The program that a source spells, nested at most `limit` deep, checked in a fresh session. -/
def Source.checkWithin (source : Source) (limit : Nat) : Outcome Position Checked := do
  let program ← source.program limit
  let (session, returns) := Session.builtin.run program
  let returns ← returns
  .ok ⟨program, session, returns⟩

/-- The program that a source spells, checked in a fresh session. -/
def Source.check (source : Source) : Outcome Position Checked := source.checkWithin depthLimit

end LetWhile
