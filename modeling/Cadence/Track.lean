/-
  The track file. Until something is mixed down it holds only the line `x`. The first mixdown
  replaces that by the tempo and its own line, and each later one adds a line. The tempo can be
  changed until then. Wrong arguments to a mixdown take everything back.
-/
import Cadence.Value.Text

namespace Cadence

structure Track where
  defaultTempo : Int
  tempo : Int
  emitted : Bool
  /-- The text of the file, if it has been written at all. -/
  file : Option String
  deriving DecidableEq, Repr

namespace Track

/-- The text of a file without tracks. -/
def sentinel : String := "x\n"

/-- A track file not yet written. -/
def new (tempo : Int) : Track :=
  { defaultTempo := tempo, tempo, emitted := false, file := none }

/-- Forgets tempo and tracks. -/
def reset (t : Track) : Track :=
  { t with tempo := t.defaultTempo, emitted := false, file := some sentinel }

def setTempo (t : Track) (tempo : Int) : Except Failure Track :=
  if t.emitted then .error (.fault .tempoFixed) else .ok { t with tempo }

/-- A track number is an integer from 0 to 15. -/
def checkNumber (v : Value) : Except Failure Int := do
  let tag ← v.tag
  match v with
  | .int n =>
      if n < 0 ∨ maxTrack < n then .error (.fault (.trackOutside n)) else return n
  | _ => .error (.fault (.trackNotInt tag))

/-- The value and the track number that the arguments of a mixdown give; track 0 if none is
    named. -/
def arguments : List Value → Except Failure (Value × Int)
  | [v] => .ok (v, 0)
  | [v, number] => (checkNumber number).map fun n => (v, n)
  | args => .error (.fault (.mixdownCount args.length))

/-- The line of a mixdown. -/
def line (number : Int) (text : String) : String := toString number ++ text ++ "\n"

/-- What is written to the file: a new text in place of the old one, or more text behind it. -/
inductive Write where
  | anew (text : String)
  | more (text : String)
  deriving DecidableEq, Repr

/-- The text of a file after something is written. -/
def Write.over : Write → String → String
  | .anew text, _ => text
  | .more text, old => old ++ text

/-- What is written for a line: the line itself, and the tempo above the first one. -/
def emission (t : Track) (number : Int) (text : String) : Write :=
  if t.emitted then .more (line number text)
  else .anew (toString t.tempo ++ "\n" ++ line number text)

/-- Adds a line, the first one below the tempo. -/
def emit (t : Track) (number : Int) (text : String) : Track :=
  { t with emitted := true, file := some ((t.emission number text).over (t.file.getD "")) }

/-- A failure of the arguments themselves. -/
def isInvalid : Failure → Bool
  | .fault f => f.kind == .invalidMixdownArgs
  | .defect _ => false

/-- Mixes a value down. Gives the track number. -/
def mixdown (t : Track) (room : Value.Room) (args : List Value) : Except Failure Int × Track :=
  match arguments args with
  | .error e => (.error e, if isInvalid e then t.reset else t)
  | .ok (v, number) =>
      match v.serialized room with
      | .error e => (.error e, t)
      | .ok text => (.ok number, t.emit number text)

/-- What a mixdown writes, if anything. -/
def written (t : Track) (room : Value.Room) (args : List Value) : Option Write :=
  match arguments args with
  | .error e => if isInvalid e then some (.anew sentinel) else none
  | .ok (v, number) =>
      match v.serialized room with
      | .error _ => none
      | .ok text => some (t.emission number text)

/-- The file after a mixdown is the file before it with what was written. -/
theorem mixdown_file (t : Track) (room : Value.Room) (args : List Value) :
    (t.mixdown room args).2.file =
      match t.written room args with
      | none => t.file
      | some w => some (w.over (t.file.getD "")) := by
  unfold mixdown written
  cases arguments args with
  | error e => by_cases h : isInvalid e <;> simp [h, reset, Write.over]
  | ok p =>
      obtain ⟨v, number⟩ := p
      dsimp only
      cases v.serialized room <;> simp [emit]

end Track

end Cadence
