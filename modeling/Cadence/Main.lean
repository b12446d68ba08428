/-
  The program: reads the file that the arguments name, and writes what the report asks for.
-/
import Cadence.CommandLine.Basic

open Cadence CommandLine

/-- The text of a file, if it can be read. -/
def readText? (path : String) : IO (Option String) := do
  try
    return some (← IO.FS.readFile path)
  catch _ => return none

/-- What stands at a path: the program file is looked at, and any other path is taken as free. -/
def placeOf (program : String) (text : Option String) (_ : Files) (path : String) : Place :=
  if path == program then
    match text with
    | some t => .file (Path.normalize path) t
    | none => .missing
  else .free (Path.normalize path)

def main (args : List String) : IO UInt32 := do
  let program := match Arguments.ofList args with
    | .ok a => a.program
    | .error _ => ""
  let text ← readText? program
  let chance ← IO.rand 0 0x4000000000000000
  let report := CommandLine.run args (placeOf program text) chance
  for (path, contents) in report.written do
    IO.FS.writeFile path contents
  IO.print report.out
  IO.eprint report.err
  match report.exit with
  | .status code => return code.toUInt32
  | .escaped e => do
      IO.eprintln e.report
      return 1
  | .unfinished => return 1
