import LetWhile.CommandLine

/-!
# The program

Reads the file that is named on the command line and prints the answer.
-/

namespace LetWhile

/-- How a reading fault of the system is reported. The system's numbers come with either sign. -/
def readFault : IO.Error → CommandLine.ReadFault
  | .noFileOrDirectory .. => .missing
  | fault@(.inappropriateType _ code _) =>
    match min code (0 - code) with
    | 20 => .notDirectory
    | 21 => .isDirectory
    | _ => .other (toString fault)
  | fault => .other (toString fault)

/-- The text of the file at a path. -/
def readText (path : String) : IO (Except CommandLine.ReadFault String) := do
  try
    return .ok (← IO.FS.readFile path)
  catch fault =>
    return .error (readFault fault)

end LetWhile

open LetWhile in
/-- The command line program. -/
def main (args : List String) : IO UInt32 := do
  let answer ← CommandLine.respond readText args
  (← IO.getStdout).putStr answer.stdout
  (← IO.getStderr).putStr answer.stderr
  return answer.exit
