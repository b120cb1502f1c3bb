import LetWhile.Fault.Report
import LetWhile.Source

/-!
# The command line

The program takes the path of one file, checks the text in it and prints the types of its top-level
names, or a report of the first fault. What is printed is decided here; reading the file is left to
the caller.

Two things are left out of an answer that do not follow from the text. One is the log: a line with the
time that checking took, on standard output in front of the types of a well-typed text, unless logging
is turned off. The other is what the system says on standard error when a report breaks off.
-/

namespace LetWhile

namespace CommandLine

/-- What the program prints and how it exits. -/
structure Answer where
  exit : UInt32
  stdout : String
  stderr : String

/-- The name that the program is called by. -/
def programName : String := "frontend"

/-- Why a file cannot be read. -/
inductive ReadFault
  | missing
  | notDirectory
  | isDirectory
  | other (text : String)

/-- How the operating system words a reading fault. -/
def ReadFault.text : ReadFault → String
  | missing => "No such file or directory (os error 2)"
  | notDirectory => "Not a directory (os error 20)"
  | isDirectory => "Is a directory (os error 21)"
  | other text => text

/-- How the program exits where it cannot go on. -/
def brokenOff : UInt32 := 101

/-- Lines as they are printed. -/
def printed (lines : List String) : String := String.join (lines.map (· ++ "\n"))

/-- The last name in a path, or the whole path if it ends in no name. -/
def fileName (path : String) : String :=
  match (path.splitOn "/").reverse.filter fun part => part ≠ "" ∧ part ≠ "." with
  | [] | ".." :: _ => path
  | name :: _ => name

/-- The line for one top-level statement: the type of the name that it declares. -/
def bindingLine? (scope : Scope) : Stmt Position → Option String
  | .declare name _ _ _ => (scope.find? name).map fun type => name ++ ": " ++ type.text
  | _ => none

/-- What is printed about a well-typed program. -/
def summary (checked : Checked) : List String :=
  checked.program.stmts.filterMap (bindingLine? checked.session.scope)
    ++ (checked.returns.head?.map fun type => "returns " ++ type.text).toList

/-- The answer to the file at `path` with the given text. -/
def answer (path text : String) : Answer :=
  let file := fileName path
  match (Source.mk text file).check with
  | .ok checked => ⟨0, printed (summary checked), ""⟩
  | .error fault =>
    let report := fault.report text file
    ⟨if report.complete then 1 else brokenOff, printed report.lines, ""⟩

/-- The answer to a file that cannot be read. -/
def unreadable (path : String) (fault : ReadFault) : Answer :=
  ⟨1, "", printed ["Failed to read " ++ path ++ ": " ++ fault.text]⟩

/-- The answer to any number of arguments but one. -/
def usage : Answer := ⟨1, "", printed ["Usage: " ++ programName ++ " <file>"]⟩

/-- The answer to a list of arguments, given how paths are read. -/
def respond {m : Type → Type} [Monad m] (read : String → m (Except ReadFault String)) :
    List String → m Answer
  | [path] => do
    match ← read path with
    | .ok text => return answer path text
    | .error fault => return unreadable path fault
  | _ => return usage

end CommandLine

end LetWhile
