/-
  Whole numbers of the language: every result is wrapped into the signed 64-bit range, division
  cuts off toward zero and a remainder takes the sign of the dividend.
-/
import Cadence.Failure

namespace Cadence.Integer

/-- The number of values of a 64-bit word. -/
def modulus : Int := 0x10000000000000000

/-- The largest integer of the language. -/
def maxInt : Int := 0x7fffffffffffffff

/-- The integer in the signed 64-bit range that is congruent to `n`. -/
def wrap (n : Int) : Int :=
  let r := n % modulus
  if maxInt < r then r - modulus else r

/-- Division toward zero. -/
def div (a b : Int) : Except Failure Int :=
  if b = 0 then .error (.fault .divisionByZero) else .ok (wrap (a.tdiv b))

/-- The remainder of `div`, formed from its wrapped quotient. -/
def mod (a b : Int) : Except Failure Int :=
  if b = 0 then .error (.fault .moduloByZero) else .ok (wrap (a - b * wrap (a.tdiv b)))

end Cadence.Integer
