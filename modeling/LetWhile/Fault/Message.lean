import LetWhile.Fault.Basic
import LetWhile.Text.Quoted

/-!
# The wording of faults

Each cause has a name, a message that quotes the texts it is about, and, except for an unrecognised
token, a tip that says what was expected.
-/

namespace LetWhile

open Text (quoted quotedList)

namespace Cause

/-- How a function literal is described where a value of a named type is expected. -/
def literalText (params : Nat) : String := s!"function of {params} parameters"

/-- The name of a cause. -/
def name : Cause → String
  | unrecognisedToken .. => "UnrecognisedToken"
  | mismatchedBracket .. => "MismatchedBracket"
  | unclosedBracket .. => "UnclosedBracket"
  | unexpectedToken .. => "UnexpectedTokenDetailed"
  | missingSemicolon => "MissingSemicolon"
  | invalidTarget .. => "InvalidAssignmentTarget"
  | emptyExpression => "EmptyExpression"
  | unrecognisedExpression .. => "UnrecognisedExpression"
  | invalidNumber .. => "NumberParseError"
  | unknownOperator .. => "UnknownOperator"
  | invalidParameters .. => "InvalidParameterList"
  | invalidType .. => "InvalidTypeSignature"
  | alreadyDeclared .. => "VariableAlreadyDeclared"
  | notDeclared .. => "VariableNotDeclared"
  | unexpectedArguments .. => "UnexpectedArguments"
  | missingArguments .. => "MissingArguments"
  | argumentMismatch .. => "ArgumentTypeMatchError"
  | typeMismatch .. | notFunctionType .. => "TypeMatchError"
  | notCallable .. => "NotCallable"
  | functionNotInferred => "CannotInferFunction"
  | parameterCount .. => "ParameterCountMismatch"
  | severalReturnTypes .. => "MultipleReturnTypes"
  | returnMismatch .. => "ReturnTypeMismatch"
  | nestingTooDeep .. => "NestingTooDeep"

/-- What is wrong, in one line. -/
def message : Cause → String
  | unrecognisedToken text => "unrecognised token at: " ++ quoted text
  | mismatchedBracket expected found =>
    "mismatched brackets: expected " ++ quoted expected ++ ", found " ++ quoted found
  | unclosedBracket bracket => "unclosed bracket " ++ quoted bracket
  | unexpectedToken token message =>
    "unexpected token (" ++ quoted message ++ "): " ++ quoted token
  | missingSemicolon => "missing semicolon"
  | invalidTarget token => "invalid assignment target: " ++ quoted token
  | emptyExpression => "empty expression"
  | unrecognisedExpression expression => "unrecognised expression: " ++ quoted expression
  | invalidNumber token => "error parsing number: " ++ quoted token
  | unknownOperator operator => "unknown operator: " ++ quoted operator
  | invalidParameters token => "invalid parameter list near " ++ quoted token
  | invalidType signature => "invalid type signature: " ++ quoted signature
  | alreadyDeclared name => "variable " ++ quoted name ++ " already declared"
  | notDeclared name => "variable " ++ quoted name ++ " not declared"
  | unexpectedArguments expected received =>
    s!"unexpected arguments: expected {expected}, received {received}"
  | missingArguments expected received =>
    s!"missing arguments: expected {expected}, received {received}"
  | argumentMismatch expected received =>
    "argument types do not match: expected " ++ quoted expected.text ++ ", received "
      ++ quoted received.text
  | typeMismatch expected received =>
    "types do not match: expected " ++ quoted expected.text ++ ", received " ++ quoted received.text
  | notFunctionType expected params =>
    "types do not match: expected " ++ quoted expected.text ++ ", received "
      ++ quoted (literalText params)
  | notCallable type => "type " ++ type.text ++ " is not callable"
  | functionNotInferred => "cannot infer the type of a function literal"
  | parameterCount expected received =>
    s!"parameter count mismatch: expected {expected}, received {received}"
  | severalReturnTypes types => "multiple return types: " ++ quotedList (types.map Ty.text)
  | returnMismatch expected received =>
    "return type mismatch: expected " ++ quoted expected.text ++ ", received "
      ++ quoted received.text
  | nestingTooDeep limit => s!"nesting deeper than {limit} levels"

/-- A text between backquotes. -/
def code (text : String) : String := "`" ++ text ++ "`"

/-- What would have been right, where that can be said. -/
def tip? : Cause → Option String
  | unrecognisedToken _ => none
  | mismatchedBracket expected found =>
    some ("Found " ++ code found ++ " while " ++ code expected ++ " was still open")
  | unclosedBracket bracket => some (code bracket ++ " is never closed")
  | unexpectedToken token message => some ("Unexpected token: " ++ code token ++ ", " ++ message)
  | missingSemicolon => some ("Statements must end with " ++ code ";")
  | invalidTarget token => some ("Only identifiers can be assigned to, found " ++ code token)
  | emptyExpression => some "An expression was expected here"
  | unrecognisedExpression expression =>
    some ("Could not parse " ++ code expression ++ " as an expression")
  | invalidNumber token => some ("Invalid number: " ++ code token)
  | unknownOperator operator => some (code operator ++ " is not a known operator here")
  | invalidParameters token =>
    some ("Function parameters must be identifiers separated by commas, found " ++ code token)
  | invalidType signature =>
    some (code signature ++ " is not a type, function types must be written "
      ++ code "(A, B) -> C")
  | alreadyDeclared name => some ("Variable " ++ code name ++ " already declared")
  | notDeclared name => some ("Variable " ++ code name ++ " not declared")
  | unexpectedArguments expected received | missingArguments expected received =>
    some s!"Expected {expected} arguments, received {received}"
  | argumentMismatch expected received =>
    some ("Expected argument type " ++ code expected.text ++ ", received " ++ code received.text)
  | typeMismatch expected received =>
    some ("Expected type " ++ code expected.text ++ ", received " ++ code received.text)
  | notFunctionType expected params =>
    some ("Expected type " ++ code expected.text ++ ", received " ++ code (literalText params))
  | notCallable type => some ("Values of type " ++ code type.text ++ " cannot be called")
  | functionNotInferred => some "Function literals need a declared function type"
  | parameterCount expected received =>
    some s!"Declared type takes {expected} parameters, function literal takes {received}"
  | severalReturnTypes types =>
    some ("Block returns several types: " ++ ", ".intercalate (types.map Ty.text))
  | returnMismatch expected received =>
    some ("Function is declared to return " ++ code expected.text ++ " but returns "
      ++ code received.text)
  | nestingTooDeep limit =>
    some s!"Brackets, nested expressions and blocks may be at most {limit} levels deep"

end Cause

end LetWhile
