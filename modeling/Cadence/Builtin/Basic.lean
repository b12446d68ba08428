/-
  The built-in functions by name, and how many arguments they take.
-/
import Cadence.Name

namespace Cadence

inductive Builtin where
  | print
  | getAmplitude
  | getDuration
  | getPitches
  | setAmplitude
  | setDuration
  | setPitches
  | randomInt
  | randomDouble
  | length
  | bpm
  | mixdown
  deriving DecidableEq, Repr

namespace Builtin

def all : List Builtin :=
  [.print, .getAmplitude, .getDuration, .getPitches, .setAmplitude, .setDuration, .setPitches,
   .randomInt, .randomDouble, .length, .bpm, .mixdown]

def name : Builtin → String
  | .print => "print"
  | .getAmplitude => "getAmplitude"
  | .getDuration => "getDuration"
  | .getPitches => "getPitches"
  | .setAmplitude => "setAmplitude"
  | .setDuration => "setDuration"
  | .setPitches => "setPitches"
  | .randomInt => "randomInt"
  | .randomDouble => "randomDouble"
  | .length => "length"
  | .bpm => "bpm"
  | .mixdown => "mixdown"

/-- The number of arguments; a mixdown counts its own. -/
def arity : Builtin → Option Nat
  | .mixdown => none
  | .setAmplitude | .setDuration | .setPitches => some 2
  | _ => some 1

def named? : Name → Option Builtin
  | .text s => all.find? fun b => b.name == s
  | _ => none

def described (b : Builtin) : String := s!"<builtin {b.name}>"

end Builtin

end Cadence
