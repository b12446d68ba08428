/-
  Sessions: running programs one after another in one studio.

  A run resets the track file, declares the functions and the globals, and calls `main`. If it
  fails in any way the track file is reset again. The debug log is open during a run and closed
  after it; the generator of random numbers goes on from run to run.
-/
import Cadence.Machine.Statement

namespace Cadence

/-- How a session is set up. -/
structure Options where
  debugLevel : Int := 0
  tempo : Int := 220
  seed : Int := 0
  /-- Calls that may be under way at once. -/
  maxDepth : Int := 500
  /-- How deep expressions and statements may be nested: twenty levels for each call, and at
      least a thousand. Without a bound they may be nested at will. -/
  nesting : Option Int := some (max 1000 (maxDepth * 20))
  /-- Whether the track file is the debug log as well. -/
  shared : Bool := false

/-- The files that a session finds. -/
structure Remains where
  track : Option String := none
  log : Option String := none

structure Session where
  options : Options
  studio : Studio

namespace Session

/-- A fresh session. When debug messages are asked for, the log is started anew; a track file is
    left as it is found until the first run. -/
def new (options : Options) (remains : Remains := {}) : Session :=
  let log := if 0 < options.debugLevel then Log.fresh
    else { file := remains.log, isOpen := false }
  { options
    studio :=
      { track := { Track.new options.tempo with file := remains.track }
        console := #[]
        log
        shared := if options.shared then some .fresh else none
        random := Twister.ofSeed options.seed
        functions := []
        depth := 0
        history := .of [] } }

/-- What governs runs of the session with a table of functions. -/
def context (options : Options) (functions : Functions) : Context :=
  { debugLevel := options.debugLevel
    maxDepth := options.maxDepth
    nesting := options.nesting.map Int.toNat
    functions }

/-- The largest limit on nesting that is accepted. -/
def maxNesting : Int := 0x7fffffff

/-- Writes a debug message if the session has debug messages at all. -/
def debug (options : Options) (text : String) (s : Studio) : Studio :=
  if 0 < options.debugLevel then s.debug text else s

/-- Adds functions to the table. A name may be declared again. -/
def declareFunctions (options : Options) : List Node → Act Unit
  | [] => pure ()
  | decl :: rest => do
      let name ← Act.lift (decl.nameField >>= Operator.nameOf)
      let functions ← Act.read Studio.functions
      let redeclared := (functions.get? name).isSome
      Act.modify fun s =>
        if redeclared then
          debug options s!"function {name.shown} redeclared; the later declaration wins" s
        else s
      Act.modify fun s => { s with functions := s.functions.insert name decl }
      declareFunctions options rest

/-- The studio with nothing left in it of earlier runs. -/
def cleared (s : Studio) : Studio :=
  { s.resetTrack with functions := [], depth := 0, history := .of [] }

/-- Declares the functions and the globals of a program, and calls its `main`. -/
def launch (options : Options) (fuel : Nat) (decls functions : List Node) : Act Value := do
  declareFunctions options functions
  let table ← Act.read Studio.functions
  let globals ← Act.lift (Frame.declare [] decls)
  match table.get? (.text "main") with
  | none => Act.fault .noMain
  | some main => do
      Act.modify (debug options s!"run: {table.length} functions, {globals.length} globals")
      let ctx := context options table
      let (v, _) ← Machine.callFunction ctx (ctx.machine fuel 0) main [] globals
      let text ← ctx.text v
      Act.modify (debug options s!"run finished: main returned {text}")
      return v

/-- The work of a run, from the reset of the track file to the value of `main`. -/
def start (options : Options) (fuel : Nat) (program : Node) : Act Value := do
  Act.modify cleared
  match program with
  | .program decls functions => launch options fuel decls functions
  | other => Act.lift (other.noPart "functions")

/-- What a failed run leaves in the debug log. A defect leaves nothing. -/
def abortNote : Failure → Option String
  | .fault .nesting => some "run aborted: Python recursion limit reached"
  | .fault f => some s!"run aborted: {f.report}"
  | .defect _ => none

/-- The studio after a failure: noted in the log, track file reset. -/
def abort (options : Options) (e : Failure) (s : Studio) : Studio :=
  let s := match abortNote e with
    | some text => debug options text s
    | none => s
  s.resetTrack

/-- The log as a run finds it: open if there is one. -/
def openLog (options : Options) (s : Studio) : Studio :=
  if 0 < options.debugLevel then s.openLog else s

/-- Runs a program and gives the value of its `main`. -/
def run (session : Session) (fuel : Nat) (program : Node) : Ending Value × Session :=
  let options := session.options
  let opened := openLog options session.studio
  if options.nesting.any (maxNesting < ·) then
    (.failed (.defect .limitTooLarge), { session with studio := opened })
  else
    match start options fuel program opened with
    | (.done v, s) => (.done v, { session with studio := s.closeLog })
    | (.failed e, s) => (.failed e, { session with studio := (abort options e s).closeLog })
    | (.unfinished, s) => (.unfinished, { session with studio := s })

/-- A debug message from outside a run. -/
def note (session : Session) (text : String) : Session :=
  { session with studio := debug session.options text session.studio }

/-- A session for single steps: the log is closed, the track file reset, the functions known. -/
def bench (options : Options) (functions : Functions) : Session :=
  let session := new options
  { session with
    studio := { session.studio.closeLog with
      track := session.studio.track.reset
      functions } }

/-- Evaluates one expression. -/
def evaluate (session : Session) (fuel : Nat) (node : Node) (env : Environment) :
    Ending (Value × Environment) × Session :=
  let ctx := context session.options session.studio.functions
  let (r, studio) := ctx.evaluate fuel 0 node env session.studio
  (r, { session with studio })

/-- Executes one statement. -/
def execute (session : Session) (fuel : Nat) (node : Node) (env : Environment) :
    Ending Outcome × Session :=
  let ctx := context session.options session.studio.functions
  let (r, studio) := ctx.execute fuel 0 node env session.studio
  (r, { session with studio })

/-- Fuel for programs in practice. -/
def ample : Nat := 0x4000000000000000

end Session

end Cadence
