import LetWhile.Text.Visible

/-!
# Quoted text

A text between double quotes. The quote and the backslash are escaped, line feed, carriage return,
tab and the null character have short escapes, and any other character that is not visible is given
by its code point, as in `\u{7f}`.

In the language's own string literals only the quote has an escape, and `unquoted` undoes it.
-/

namespace LetWhile.Text

/-- A character as it is written between quotes. -/
def quotedChar (c : Char) : List Char :=
  if c = '"' then ['\\', '"']
  else if c = '\\' then ['\\', '\\']
  else if c = '\n' then ['\\', 'n']
  else if c = '\r' then ['\\', 'r']
  else if c = '\t' then ['\\', 't']
  else if c.toNat = 0 then ['\\', '0']
  else if isVisible c then [c]
  else '\\' :: 'u' :: '\x7b' :: (Nat.toDigits 16 c.toNat ++ ['\x7d'])

/-- A text between quotes. -/
def quoted (s : String) : String :=
  "\"" ++ String.ofList (s.toList.flatMap quotedChar) ++ "\""

/-- Several quoted texts between square brackets, separated by commas. -/
def quotedList (texts : List String) : String :=
  "[" ++ ", ".intercalate (texts.map quoted) ++ "]"

/-- A text with every escaped quote replaced by a quote. -/
def unescapeQuotes : List Char → List Char
  | '\\' :: '"' :: cs => '"' :: unescapeQuotes cs
  | c :: cs => c :: unescapeQuotes cs
  | [] => []

/-- The value of a string literal, given with its quotes. -/
def unquoted (literal : String) : String :=
  String.ofList (unescapeQuotes (literal.toList.drop 1).dropLast)

end LetWhile.Text
