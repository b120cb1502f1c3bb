import LetWhile.Position

/-!
# Tokens

The vocabulary of the language: brackets, reserved words and the kinds of token.
-/

namespace LetWhile

/-- The two shapes of bracket. -/
inductive Bracket
  | paren
  | brace
deriving DecidableEq

namespace Bracket

/-- The text that opens a group. -/
def opening : Bracket → String
  | paren => "("
  | brace => "\x7b"

/-- The text that closes a group. -/
def closing : Bracket → String
  | paren => ")"
  | brace => "\x7d"

end Bracket

/-- The words that introduce a statement or a branch. -/
inductive Keyword
  | ifWord
  | elseWord
  | whileWord
  | letWord
  | returnWord
deriving DecidableEq

/-- The spelling of a reserved word. -/
def Keyword.text : Keyword → String
  | ifWord => "if"
  | elseWord => "else"
  | whileWord => "while"
  | letWord => "let"
  | returnWord => "return"

/-- What sort of token a piece of text is. -/
inductive Kind
  | semicolon
  | colon
  | comma
  | arrow
  | lambdaArrow
  | closing (bracket : Bracket)
  | opening (bracket : Bracket)
  | keyword (word : Keyword)
  | boolean
  | string
  | number
  | operator
  | typeName
  | identifier
deriving DecidableEq

/-- A piece of source text, its kind and its place. -/
structure Token (P : Type) where
  kind : Kind
  text : String
  span : Span P
deriving DecidableEq

/-- A token at another place. -/
def Token.map {P Q : Type} (f : P → Q) (token : Token P) : Token Q :=
  ⟨token.kind, token.text, token.span.map f⟩

end LetWhile
