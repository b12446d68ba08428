/-
  The command line: reads the arguments, loads a program file and runs it. Whatever goes wrong is
  reported on the error stream, with status 2 for wrong arguments and 1 for everything else.

  All of it is a function of the arguments and of what stands at the paths they name, given the
  files made meanwhile; `Report` says what is to be written where.
-/
import Cadence.CommandLine.Arguments
import Cadence.CommandLine.Path
import Cadence.Json.Reader
import Cadence.Node.Decode
import Cadence.Session

namespace Cadence

/-- The program in the text of a file. -/
def Node.ofFile (path text : String) : Except Failure Node := do
  let j ← Json.ofFileText text
  match ← Node.ofJson j with
  | .program globals functions => return .program globals functions
  | _ => throw (.defect (.notProgram path))

namespace CommandLine

def usage : String :=
  "usage: tonic [-h] [-v] [--track-file TRACK_FILE] [--seed SEED] program\n"

def help : String :=
  usage ++ String.join (["",
    "Tonic language interpreter",
    "",
    "positional arguments:",
    "  program               JSON program file to execute",
    "",
    "options:",
    "  -h, --help            show this help message and exit",
    "  -v                    increase debug verbosity (can be repeated)",
    "  --track-file TRACK_FILE",
    "                        track file written by mixdown (default: track.txt)",
    "  --seed SEED           seed for the random number built-ins"].map (· ++ "\n"))

/-- How the command line ends: with a status, or with a defect that it does not report, or not at
    all within the fuel of a run. -/
inductive Exit where
  | status (code : Nat)
  | escaped (d : Failure)
  | unfinished

structure Report where
  exit : Exit
  out : String := ""
  err : String := ""
  /-- The files written, with their text. -/
  written : Files := []

def debugFile : String := "debug.txt"

/-- Where tracks go when the arguments do not say. -/
def trackFile : String := "track.txt"

/-- The defects of a program file that are reported. -/
def isReported : Failure → Bool
  | .fault _ => false
  | .defect d =>
      match d.category with
      | .key | .value | .json | .type => true
      | _ => false

/-- The files that a session leaves. A shared file is one. -/
def filesOf (trackKey : String) (s : Studio) : Files :=
  match s.shared with
  | some f => [(debugFile, f.text)]
  | none =>
      (s.track.file.map fun text => (trackKey, text)).toList
        ++ (s.log.file.map fun text => (debugFile, text)).toList

/-- Runs a program with the track file at a path that can be written. -/
def session (verbosity : Nat) (trackKey : String) (program : Node) (seed : Int) : Report :=
  let session := Session.new
    { debugLevel := verbosity, seed, shared := 0 < verbosity && trackKey == debugFile }
  let (ending, after) := session.run Session.ample program
  let report (exit : Exit) (err : String) : Report :=
    { exit, out := after.studio.consoleText, err, written := filesOf trackKey after.studio }
  match ending with
  | .done _ => report (.status 0) ""
  | .failed e => report (.status 1) s!"Runtime error: {e.report}\n"
  | .unfinished => report .unfinished ""

/-- Looks for a place for the track file, and runs a program. The log has been made by then. -/
def perform (args : Arguments) (made : Files) (place : Files → String → Place) (program : Node)
    (chance : Int) : Report :=
  let stop (exit : Exit) (err : String) : Report := { exit, err, written := made }
  let unwritable (d : Defect) := stop (.status 1) s!"Runtime error: {d.message}\n"
  let start (file : String) (seed : Int) : Report :=
    let path := Path.normalize file
    match place made file with
    | .file key _ | .free key => session args.verbosity key program seed
    | .directory => unwritable (.isDirectory path)
    | .blocked => unwritable (.notDirectory path)
    | .missing => unwritable (.noFile path)
    | .barred => unwritable (.noPermission path)
    | .full => unwritable .noSpace
    | .void => unwritable .nullByte
    | .tooLong => unwritable (.nameTooLong path)
  match args.trackFile.value? trackFile, args.seed.value? chance with
  | none, _ => stop (.escaped (.defect (.voidOption Opt.trackFile.text))) ""
  | _, none => stop (.escaped (.defect (.voidOption Opt.seed.text))) ""
  | some file, some seed => start file seed

/-- Starts the debug log if one is asked for, and goes on from there. -/
def logged (args : Arguments) (place : Files → String → Place) (program : Node) (chance : Int) :
    Report :=
  if args.verbosity = 0 then perform args [] place program chance
  else match place [] debugFile with
    | .directory => { exit := .escaped (.defect (.isDirectory debugFile)) }
    | _ => perform args [(debugFile, "")] place program chance

/-- The command line. `chance` seeds the random numbers when the arguments do not. -/
def run (args : List String) (place : Files → String → Place) (chance : Int) : Report :=
  match Arguments.ofList args with
  | .error .help => { exit := .status 0, out := help }
  | .error (.usage message) =>
      { exit := .status 2, err := usage ++ s!"tonic: error: {message}\n" }
  | .ok args =>
      let path := Path.normalize args.program
      match place [] args.program with
      | .file _ text =>
          match Node.ofFile path text with
          | .ok program => logged args place program chance
          | .error e =>
              if isReported e then
                { exit := .status 1
                  err := s!"Error: {path} is not a valid program: {e.report}\n" }
              else { exit := .escaped e }
      | .directory => { exit := .escaped (.defect (.isDirectory path)) }
      | .tooLong => { exit := .escaped (.defect (.nameTooLong path)) }
      | _ => { exit := .status 1, err := s!"Error: file {path} not found\n" }

end CommandLine

end Cadence
