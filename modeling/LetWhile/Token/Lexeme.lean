import LetWhile.Token.Basic
import LetWhile.Text.Blank
import LetWhile.Text.WordChar

/-!
# Lexemes

The scanner's rules. A rule says how many characters it takes from the front of a text, none when it
does not apply, and what sort of token they make. The rules are tried in order and the first that
applies decides (`lexeme?`), so that punctuation and arrows come before operators, reserved words
before truth values and both before names. What is taken is never empty (`Lexeme.length_pos`).
-/

namespace LetWhile

open Text (isBlank isWordChar)

/-! ## What rules take -/

namespace Lexeme

/-- Whether a word ends at the front of a text. -/
def wordEnds : List Char → Bool
  | [] => true
  | c :: _ => !isWordChar c

/-- As many characters of a class as there are. -/
def run (p : Char → Bool) (cs : List Char) : Nat := (cs.takeWhile p).length

/-- Exactly this text. -/
def exactly (text : String) (cs : List Char) : Nat :=
  if text.toList.isPrefixOf cs then text.length else 0

/-- Exactly this text, where the word ends with it. -/
def word (text : String) (cs : List Char) : Nat :=
  if wordEnds (cs.drop text.length) then exactly text cs else 0

/-- A comment, from two slashes to the end of the line. -/
def comment : List Char → Nat
  | '/' :: '/' :: cs => 2 + run (· != '\n') cs
  | _ => 0

/-- The characters that stand for themselves between quotes: visible ASCII and the space, but
neither the quote nor the backslash. -/
def isPlain (c : Char) : Bool := ' ' ≤ c && c ≤ '~' && c != '"' && c != '\\'

/-- What is left of a string literal after its opening quote, closing quote included. The only
escape is that of the quote. -/
def stringBody : List Char → Option Nat
  | '"' :: _ => some 1
  | '\\' :: '"' :: cs => (stringBody cs).map (· + 2)
  | c :: cs => if isPlain c then (stringBody cs).map (· + 1) else none
  | [] => none

/-- A string literal on one line. -/
def stringLiteral : List Char → Nat
  | '"' :: cs => ((stringBody cs).map (· + 1)).getD 0
  | _ => 0

/-- Decimal digits that no other word character follows. -/
def numeral (cs : List Char) : Nat :=
  if wordEnds (cs.dropWhile Char.isDigit) then run Char.isDigit cs else 0

/-- The characters that operators are made of. -/
def isOperatorChar (c : Char) : Bool := c ∈ "!@$%^&*<>?/|.=+-".toList

/-- An ASCII letter, digit or underscore. -/
def isNameChar (c : Char) : Bool := c.isAlphanum || c == '_'

/-- A name that begins with a character of the given class. -/
def nameFrom (begins : Char → Bool) : List Char → Nat
  | c :: cs => if begins c then 1 + run isNameChar cs else 0
  | [] => 0

end Lexeme

/-! ## The rules -/

/-- One rule of the scanner: what it makes of the characters it takes, if it keeps them at all. -/
structure Rule where
  kind? : Option Kind
  take : List Char → Nat

namespace Rule
open Lexeme

/-- The rule for one reserved word. -/
def keyword (word : Keyword) : Rule := ⟨some (.keyword word), Lexeme.word word.text⟩

/-- The rule for one fixed text. -/
def punctuation (kind : Kind) (text : String) : Rule := ⟨some kind, exactly text⟩

/-- The rules in the order in which they are tried. -/
def all : List Rule :=
  [⟨none, run isBlank⟩,
    ⟨none, comment⟩,
    punctuation .semicolon ";",
    punctuation .colon ":",
    punctuation .comma ",",
    punctuation .arrow "->",
    punctuation .lambdaArrow "=>",
    punctuation (.closing .paren) Bracket.paren.closing,
    punctuation (.opening .paren) Bracket.paren.opening,
    punctuation (.closing .brace) Bracket.brace.closing,
    punctuation (.opening .brace) Bracket.brace.opening,
    keyword .ifWord,
    keyword .elseWord,
    keyword .whileWord,
    keyword .letWord,
    keyword .returnWord,
    ⟨some .boolean, Lexeme.word "true"⟩,
    ⟨some .boolean, Lexeme.word "false"⟩,
    ⟨some .string, stringLiteral⟩,
    ⟨some .number, numeral⟩,
    ⟨some .operator, run isOperatorChar⟩,
    ⟨some .typeName, nameFrom Char.isUpper⟩,
    ⟨some .identifier, nameFrom fun c => c.isLower || c == '_'⟩]

end Rule

/-! ## The lexeme at the front of a text -/

/-- The text that one rule takes: its kind, unless it is to be passed over, and its length. -/
structure Lexeme where
  kind? : Option Kind
  length : Nat
  length_pos : 0 < length

/-- What the first rule that applies makes of the front of a text. -/
def Rule.first? (cs : List Char) : List Rule → Option Lexeme
  | [] => none
  | rule :: rest =>
    if h : 0 < rule.take cs then some ⟨rule.kind?, rule.take cs, h⟩ else first? cs rest

/-- The lexeme at the front of a text. -/
def lexeme? (cs : List Char) : Option Lexeme := Rule.first? cs Rule.all

end LetWhile
