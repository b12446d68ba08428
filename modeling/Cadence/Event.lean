/-
  What happens in a run, one event after another: the environments that nodes are taken up in and
  leave behind, the values of expressions, what is returned, and the calls that are made.
-/
import Cadence.Builtin.Basic
import Cadence.Environment

namespace Cadence

inductive Event where
  /-- An environment that a node is taken up in, or that a statement leaves behind. -/
  | reached (env : Environment)
  /-- The value of an expression, and the environment that it leaves behind. -/
  | yielded (value : Value) (env : Environment)
  /-- A value that a statement returns, and the globals at that point. -/
  | returned (value : Value) (globals : Frame)
  /-- A call of a function of the program. -/
  | called (function : Json) (args : List Value)
  /-- A call of a built-in function. -/
  | performed (function : Builtin) (args : List Value)

end Cadence
