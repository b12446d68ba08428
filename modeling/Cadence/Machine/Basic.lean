/-
  What a run is governed by, and the open recursion that it is made of.

  A `Machine` says how to evaluate an expression and how to execute a statement. The rules of the
  language are written over such a machine, for one node at a time; they call it for the parts of
  the node. `rounds` bounds the passes of a loop.
-/
import Cadence.Builtin
import Cadence.Reference

namespace Cadence

/-- What stays the same during a run. -/
structure Context where
  debugLevel : Int
  /-- Calls that may be under way at once. -/
  maxDepth : Int
  /-- How deep expressions and statements may be nested, if that is bounded. -/
  nesting : Option Nat
  functions : Functions

/-- What a statement leaves behind: an environment to go on with, or a returned value and the
    globals at that point. -/
inductive Outcome where
  | next (env : Environment)
  | returned (value : Value) (globals : Frame)

def Outcome.event : Outcome → Event
  | .next env => .reached env
  | .returned v globals => .returned v globals

structure Machine where
  evaluate : Node → Environment → Act (Value × Environment)
  execute : Node → Environment → Act Outcome
  rounds : Nat

namespace Context

/-- A node may be entered at a level of nesting below the limit. -/
@[inline] def enter (ctx : Context) (level : Nat) : Act Unit := fun s =>
  match ctx.nesting with
  | some limit => if limit ≤ level then (.failed (.fault .nesting), s) else (.done (), s)
  | none => (.done (), s)

/-- Writes a debug message when messages of its level are asked for. -/
@[inline] def debug (ctx : Context) (level : Int) (message : Act String) : Act Unit :=
  if level ≤ ctx.debugLevel then do
    let text ← message
    Act.modify fun s => s.debug text
  else pure ()

/-- How far arrays may be nested where they are written out: each takes two levels. -/
def room (ctx : Context) : Value.Room := ctx.nesting.map (· / 2)

/-- The printed text of a value. -/
def text (ctx : Context) (v : Value) : Act String := Act.lift (v.text ctx.room)

/-- The printed texts of arguments. -/
def texts (ctx : Context) (vs : List Value) : Act String := Act.lift (Value.texts ctx.room vs)

end Context

end Cadence
