/-
  The studio: everything that a run acts on besides the variables. That is the track file, the
  console, the debug log, the random generator, the table of functions and the number of calls
  under way. A ghost of everything that has happened in the run goes along with it.

  An `Act` is a computation in the studio. It ends with a value, with a failure, or not at all
  within the fuel it was given; whatever it did to the studio before stays done.
-/
import Cadence.Event
import Cadence.Ghost
import Cadence.Random.Twister
import Cadence.SharedFile

namespace Cadence

/-- A line on the console. -/
inductive Line where
  | printed (text : String)
  | mixedDown (track : Int)
  | debugged (text : String)
  deriving DecidableEq, Repr

def Line.text : Line → String
  | .printed text => text
  | .mixedDown track => s!"Track {track} mixed down"
  | .debugged text => text

/-- The debug log, a file that is open during a run. -/
structure Log where
  /-- The text of the file, if there is one. -/
  file : Option String
  isOpen : Bool
  deriving DecidableEq, Repr

namespace Log

/-- A log started anew. -/
def fresh : Log := { file := some "", isOpen := true }

/-- A log opened to be continued. -/
def reopened (l : Log) : Log := { file := some (l.file.getD ""), isOpen := true }

def closed (l : Log) : Log := { l with isOpen := false }

/-- The log with a text at its end. -/
def write (l : Log) (text : String) : Log := { l with file := some (l.file.getD "" ++ text) }

end Log

/-- Functions by name, in the order in which the names first appeared. -/
abbrev Functions := List (Name × Node)

namespace Functions

def get? : Functions → Name → Option Node
  | [], _ => none
  | (n, f) :: rest, name => if n.same name then some f else get? rest name

/-- Declares a function. A later declaration takes the place of an earlier one, under the name
    as it was first spelled. -/
def insert (name : Name) (f : Node) : Functions → Functions
  | [] => [(name, f)]
  | (n, g) :: rest =>
      if n.same name then (n, f) :: rest else (n, g) :: insert name f rest

end Functions

structure Studio where
  track : Track
  console : Array Line
  log : Log
  /-- The file that is both, if the track file is the debug log. -/
  shared : Option SharedFile
  random : Twister
  functions : Functions
  depth : Int
  /-- What has happened in the run, in order. -/
  history : Ghost (List Event)

namespace Studio

/-- What has happened in the run so far. -/
noncomputable def events (s : Studio) : List Event := s.history.get

/-- The studio after an event. -/
def noted (s : Studio) (e : Event) : Studio := { s with history := s.history.map (· ++ [e]) }

@[simp] theorem events_noted (s : Studio) (e : Event) : (s.noted e).events = s.events ++ [e] :=
  Ghost.get_map _ _

/-- The studio with the track file reset. -/
def resetTrack (s : Studio) : Studio :=
  { s with
    track := s.track.reset
    shared := s.shared.map fun f => f.track (.anew Track.sentinel) }

/-- What the track file holds, if there is one. -/
def trackFile (s : Studio) : Option String :=
  match s.shared with
  | some f => some f.text
  | none => s.track.file

/-- The studio with the log open. -/
def openLog (s : Studio) : Studio :=
  if s.log.isOpen then s
  else { s with log := s.log.reopened, shared := s.shared.map SharedFile.reopened }

def closeLog (s : Studio) : Studio := { s with log := s.log.closed }

/-- Writes a line to the debug log, or to the console when the log is closed. -/
def debug (s : Studio) (text : String) : Studio :=
  if s.log.isOpen then
    { s with
      log := s.log.write (text ++ "\n")
      shared := s.shared.map fun f => f.log (text ++ "\n") }
  else { s with console := s.console.push (.debugged text) }

/-- What the console shows. -/
def consoleText (s : Studio) : String :=
  s.console.foldl (fun text line => text ++ line.text ++ "\n") ""

end Studio

/-- How a computation ends. -/
inductive Ending (α : Type) where
  | done (a : α)
  | failed (e : Failure)
  | unfinished

/-- A computation in the studio. -/
def Act (α : Type) : Type := Studio → Ending α × Studio

namespace Act

@[inline] protected def pure {α : Type} (a : α) : Act α := fun s => (.done a, s)

@[inline] protected def bind {α β : Type} (x : Act α) (f : α → Act β) : Act β := fun s =>
  match x s with
  | (.done a, s) => f a s
  | (.failed e, s) => (.failed e, s)
  | (.unfinished, s) => (.unfinished, s)

instance : Monad Act where
  pure := Act.pure
  bind := Act.bind

@[inline] def fail {α : Type} (e : Failure) : Act α := fun s => (.failed e, s)

@[inline] def fault {α : Type} (f : Fault) : Act α := fail (.fault f)

/-- Goes on if a condition holds, and is a fault otherwise. -/
@[inline] def require (c : Prop) [Decidable c] (f : Fault) : Act Unit :=
  if c then pure () else fault f

@[inline] def unfinished {α : Type} : Act α := fun s => (.unfinished, s)

/-- A computation that does not touch the studio. -/
@[inline] def lift {α : Type} : Except Failure α → Act α
  | .ok a => fun s => (.done a, s)
  | .error e => fun s => (.failed e, s)

@[inline] def modify (f : Studio → Studio) : Act Unit := fun s => (.done (), f s)

@[inline] def note (e : Event) : Act Unit := modify fun s => s.noted e

@[inline] def read {α : Type} (f : Studio → α) : Act α := fun s => (.done (f s), s)

/-- Runs a computation as one more call under way. However it ends, the call is then over. -/
@[inline] def inCall {α : Type} (x : Act α) : Act α := fun s =>
  match x { s with depth := s.depth + 1 } with
  | (r, s) => (r, { s with depth := s.depth - 1 })

def print (line : Line) : Act Unit := modify fun s => { s with console := s.console.push line }

/-- Mixes a value down and confirms it on the console. -/
def mixdown (room : Value.Room) (args : List Value) : Act Int := fun s =>
  let shared := s.shared.map fun f => ((s.track.written room args).map f.track).getD f
  match s.track.mixdown room args with
  | (.ok number, track) =>
      (.done number, { s with track, shared, console := s.console.push (.mixedDown number) })
  | (.error e, track) => (.failed e, { s with track, shared })

def setTempo (tempo : Int) : Act Unit := fun s =>
  match s.track.setTempo tempo with
  | .ok track => (.done (), { s with track })
  | .error e => (.failed e, s)

def resetTrack : Act Unit := modify Studio.resetTrack

/-- A random number below a positive bound. -/
def randomBelow (bound : Nat) : Act Nat := fun s =>
  let (n, random) := s.random.below bound
  (.done n, { s with random })

def randomDouble : Act Float := fun s =>
  let (x, random) := s.random.double
  (.done x, { s with random })

end Act

end Cadence
