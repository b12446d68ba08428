/-
  The shortest digits of a double read back as that double.

  The reals that round to one double do not round to another (`contains_unique`), and the digits
  that are chosen for a double are the digits of a number that rounds to it (`shortest_spec`):
  seventeen digits are enough for that, since their grid is finer than the doubles. The comparisons
  that `Interval.digits?` makes in whole numbers are read as comparisons of rationals.
-/
import Mathlib.Algebra.Order.Field.Power
import Mathlib.Data.Rat.Cast.Order
import Mathlib.Tactic.FieldSimp
import Mathlib.Tactic.Linarith
import Mathlib.Tactic.NormNum
import Mathlib.Tactic.Positivity
import Mathlib.Tactic.Ring
import Cadence.Double.Text
import Cadence.Text.Numeral

namespace Cadence.Double

open Float.Model.UnpackedFloat (packedNaN unpackExponent unpackMantissa)

/-! ## Parts -/

/-- The bits of a double that has these parts. -/
def View.bits : View → Nat
  | .nan => 0x7ff8000000000000
  | .infinite negative => negative.toNat * 2 ^ 63 + 0x7ff0000000000000
  | .finite negative mantissa exponent =>
      negative.toNat * 2 ^ 63 +
        if mantissa < hiddenBit then mantissa
        else (exponent + 1075).toNat * hiddenBit + (mantissa - hiddenBit)

theorem View.bits_ofBits {bits : Nat} (h : bits < 2 ^ 64)
    (canonical : ofBits bits = .nan → bits = View.nan.bits) : (ofBits bits).bits = bits := by
  have sign : ((bits >>> 63) % 2 == 1).toNat = bits / 2 ^ 63 := by
    rw [Nat.shiftRight_eq_div_pow]
    have cases : bits / 2 ^ 63 = 0 ∨ bits / 2 ^ 63 = 1 := by omega
    rcases cases with h | h <;> rw [h] <;> rfl
  have fraction : bits % hiddenBit < hiddenBit := Nat.mod_lt _ (by decide)
  unfold ofBits at canonical ⊢
  rw [Nat.shiftRight_eq_div_pow bits 52] at canonical ⊢
  dsimp only at canonical ⊢
  split
  · next special =>
      rw [if_pos special] at canonical
      split
      · simp only [View.bits, sign]
        unfold hiddenBit at *
        omega
      · next signals => exact (canonical (if_neg signals)).symm
  · split
    · simp only [View.bits, sign, if_pos fraction]
      unfold hiddenBit at *
      omega
    · simp only [View.bits, sign]
      rw [if_neg (by omega)]
      unfold hiddenBit at *
      omega

theorem view_nan {x : Float} (h : view x = .nan) : x.toBits.toNat = View.nan.bits := by
  have parts : x.toBits.toNat >>> 52 % 2048 = 2047 ∧ x.toBits.toNat % hiddenBit ≠ 0 := by
    unfold view View.ofBits at h
    dsimp only at h
    split at h
    · next exponent =>
        split at h
        · cases h
        · next fraction => exact ⟨exponent, fraction⟩
    · split at h <;> cases h
  obtain ⟨⟨bits, valid⟩⟩ := x
  replace parts : bits.toNat >>> 52 % 2048 = 2047 ∧ bits.toNat % hiddenBit ≠ 0 := parts
  have canonical : bits.toBitVec = packedNaN .binary64 := by
    apply valid.eq_packedNaN
    · apply BitVec.eq_of_toNat_eq
      simpa [unpackExponent] using parts.1
    · intro zero
      exact parts.2 (by simpa [unpackMantissa, hiddenBit] using congrArg BitVec.toNat zero)
  show bits.toNat = _
  rw [← UInt64.toNat_toBitVec, canonical]
  decide

theorem bits_view (x : Float) : (view x).bits = x.toBits.toNat :=
  View.bits_ofBits x.toBits.toNat_lt view_nan

theorem view_inj {x y : Float} (h : view x = view y) : x = y := by
  have same : x.toBits = y.toBits := by
    rw [← UInt64.toNat_inj, ← bits_view, ← bits_view, h]
  obtain ⟨⟨_, _⟩⟩ := x
  obtain ⟨⟨_, _⟩⟩ := y
  cases same
  rfl

/-- The mantissas and exponents of doubles: the mantissa fills its bits unless the exponent is the
    least. -/
structure Fits (m : Nat) (q : Int) : Prop where
  below : m < 2 * hiddenBit
  least : -1074 ≤ q
  full : -1074 < q → hiddenBit ≤ m

theorem view_fits {x : Float} {negative : Bool} {m : Nat} {q : Int}
    (h : view x = .finite negative m q) : Fits m q := by
  have fraction : x.toBits.toNat % hiddenBit < hiddenBit := Nat.mod_lt _ (by decide)
  unfold view View.ofBits at h
  dsimp only at h
  split at h
  · split at h <;> cases h
  · split at h
    · cases h
      exact ⟨by omega, by omega, by omega⟩
    · cases h
      exact ⟨by omega, by omega, by omega⟩

/-! ## Rounding intervals -/

/-- A power with a whole exponent over the power with the opposite one. -/
theorem pow_toNat {b : Nat} (hb : 0 < b) (e : Int) :
    ((Nat.pow b e.toNat : Nat) : ℚ) = (b : ℚ) ^ e * (Nat.pow b (-e).toNat : Nat) := by
  have nonzero : (b : ℚ) ≠ 0 := by positivity
  simp only [Nat.pow_eq, Nat.cast_pow]
  obtain ⟨n, rfl | rfl⟩ := e.eq_nat_or_neg
  · simp
  · simp [nonzero]

theorem ten_pow_mul (n : Nat) (k : Int) : (10 : ℚ) ^ n * 10 ^ (k - n) = 10 ^ k := by
  rw [← zpow_natCast, ← zpow_add₀ (by norm_num), add_sub_cancel]

namespace Interval

def lower (i : Interval) : ℚ := i.low / i.denominator

def centre (i : Interval) : ℚ := i.value / i.denominator

def upper (i : Interval) : ℚ := i.high / i.denominator

/-- The number is not below the interval. -/
def AtLeast (i : Interval) (v : ℚ) : Prop := i.lower < v ∨ i.closed = true ∧ i.lower = v

/-- The number is not above the interval. -/
def AtMost (i : Interval) (v : ℚ) : Prop := v < i.upper ∨ i.closed = true ∧ v = i.upper

/-- The number lies in the interval. -/
def Contains (i : Interval) (v : ℚ) : Prop := i.AtLeast v ∧ i.AtMost v

end Interval

/-- Quarters of a step by which the interval reaches below the double. -/
def reach (m : Nat) (q : Int) : Nat := if m = hiddenBit ∧ -1074 < q then 1 else 2

theorem reach_le (m : Nat) (q : Int) : reach m q ≤ 2 := by
  unfold reach
  split <;> omega

/-- In quarters of a step. -/
theorem interval_quarters (n m : Nat) (q : Int) :
    ((n * Nat.pow 2 (q - 2).toNat : Nat) : ℚ) / (interval m q).denominator = n * 2 ^ (q - 2) := by
  have opposite : -(q - 2) = 2 - q := by ring
  have scale := pow_toNat (b := 2) (by decide) (q - 2)
  rw [opposite] at scale
  have nonzero : ((Nat.pow 2 (2 - q).toNat : Nat) : ℚ) ≠ 0 := by simp
  show _ / ((Nat.pow 2 (2 - q).toNat : Nat) : ℚ) = _
  rw [Nat.cast_mul, scale]
  field_simp
  simp

theorem interval_lower (m : Nat) (q : Int) :
    (interval m q).lower = (4 * m - reach m q : Nat) * 2 ^ (q - 2) := interval_quarters _ m q

theorem interval_centre (m : Nat) (q : Int) :
    (interval m q).centre = (4 * m : Nat) * 2 ^ (q - 2) := interval_quarters _ m q

theorem interval_upper (m : Nat) (q : Int) :
    (interval m q).upper = (4 * m + 2 : Nat) * 2 ^ (q - 2) := interval_quarters _ m q

variable {m m' : Nat} {q q' : Int}

theorem upper_le_lower (fits : Fits m q) (fits' : Fits m' q')
    (less : q < q' ∨ q = q' ∧ m < m') :
    (interval m q).upper ≤ (interval m' q').lower ∧
      ((interval m q).upper = (interval m' q').lower → m % 2 = 1 ∨ m' % 2 = 1) := by
  rw [interval_upper, interval_lower]
  have step : (0 : ℚ) < 2 ^ (q - 2) := by positivity
  have reach' := reach_le m' q'
  rcases less with less | ⟨rfl, less⟩
  · have inner := lt_of_le_of_lt fits.least less
    have full := fits'.full inner
    have below := fits.below
    have room : 4 * m + 2 ≤ 2 * (4 * m' - reach m' q') ∧
        (4 * m + 2 = 2 * (4 * m' - reach m' q') → m % 2 = 1) := by
      unfold reach hiddenBit at *
      split <;> omega
    have wider : (2 : ℚ) * 2 ^ (q - 2) ≤ 2 ^ (q' - 2) := by
      calc (2 : ℚ) * 2 ^ (q - 2) = 2 ^ (q - 2 + 1) := by rw [zpow_add_one₀ (by norm_num)]; ring
        _ ≤ 2 ^ (q' - 2) := zpow_le_zpow_right₀ (by norm_num) (by omega)
    have twice : ((4 * m' - reach m' q' : Nat) : ℚ) * (2 * 2 ^ (q - 2)) ≤
        (4 * m' - reach m' q' : Nat) * 2 ^ (q' - 2) := by gcongr
    have room' : ((4 * m + 2 : Nat) : ℚ) ≤ 2 * (4 * m' - reach m' q' : Nat) := by
      exact_mod_cast room.1
    constructor
    · nlinarith
    · intro eq
      left
      apply room.2
      have : ((4 * m + 2 : Nat) : ℚ) * 2 ^ (q - 2) =
          (2 * (4 * m' - reach m' q' : Nat)) * 2 ^ (q - 2) := by
        nlinarith
      exact_mod_cast mul_right_cancel₀ step.ne' this
  · have room : 4 * m + 2 ≤ 4 * m' - reach m' q := by omega
    have room' : ((4 * m + 2 : Nat) : ℚ) ≤ (4 * m' - reach m' q : Nat) := by exact_mod_cast room
    constructor
    · gcongr
    · intro eq
      have : 4 * m + 2 = 4 * m' - reach m' q := by exact_mod_cast mul_right_cancel₀ step.ne' eq
      omega

/-- No number rounds to two doubles. -/
theorem contains_unique {v : ℚ} (fits : Fits m q) (fits' : Fits m' q')
    (h : (interval m q).Contains v) (h' : (interval m' q').Contains v) : m = m' ∧ q = q' := by
  have apart : ∀ {m m' : Nat} {q q' : Int}, Fits m q → Fits m' q' →
      (interval m q).Contains v → (interval m' q').Contains v →
      ¬ (q < q' ∨ q = q' ∧ m < m') := by
    intro m m' q q' fits fits' h h' less
    obtain ⟨gap, odd⟩ := upper_le_lower fits fits' less
    obtain ⟨-, under⟩ := h
    obtain ⟨above, -⟩ := h'
    rcases under with under | ⟨closed, under⟩
    · rcases above with above | ⟨-, above⟩ <;> linarith
    · rcases above with above | ⟨closed', above⟩
      · linarith
      · have even : m % 2 = 0 := by simpa [interval] using closed
        have even' : m' % 2 = 0 := by simpa [interval] using closed'
        have := odd (by linarith)
        omega
  have one := apart fits fits' h h'
  have other := apart fits' fits h' h
  omega

theorem contains_pos {v : ℚ} (pos : 0 < m) (h : (interval m q).Contains v) : 0 < v := by
  have below : 0 < (interval m q).lower := by
    have quarters : 0 < 4 * m - reach m q := by
      have := reach_le m q
      omega
    rw [interval_lower]
    positivity
  obtain ⟨above | ⟨-, eq⟩, -⟩ := h
  · exact lt_trans below above
  · exact eq ▸ below

/-! ## Magnitudes -/

theorem leadingZeros_spec {numerator denominator : Nat} :
    ∀ {fuel : Nat}, denominator ≤ numerator * 10 ^ fuel →
      denominator ≤ numerator * 10 ^ leadingZeros fuel numerator denominator ∧
      ∀ z < leadingZeros fuel numerator denominator, numerator * 10 ^ z < denominator := by
  intro fuel enough
  induction fuel generalizing numerator with
  | zero => exact ⟨enough, by simp [leadingZeros]⟩
  | succ fuel ih =>
      rw [leadingZeros]
      split
      · next le => exact ⟨by simpa using le, by simp⟩
      · next lt =>
          have next : denominator ≤ numerator * 10 * 10 ^ fuel := by
            rw [mul_assoc, ← pow_succ']
            exact enough
          obtain ⟨reached, before⟩ := ih next
          refine ⟨?_, fun z hz => ?_⟩
          · rw [pow_succ', ← mul_assoc]
            exact reached
          · cases z with
            | zero => simpa using lt
            | succ z =>
                rw [pow_succ', ← mul_assoc]
                exact before z (by omega)

/-- A number with `k + 1` digits. -/
theorem toDigits_length {n k : Nat} (pos : 0 < n) :
    (Nat.toDigits 10 n).length = k + 1 ↔ 10 ^ k ≤ n ∧ n < 10 ^ (k + 1) := by
  have upper := Nat.length_toDigits_le_iff (b := 10) (n := n) (k := k + 1) (by decide) (by omega)
  cases k with
  | zero =>
      have some : 0 < (Nat.toDigits 10 n).length := Nat.length_toDigits_pos
      omega
  | succ k =>
      have lower :=
        Nat.length_toDigits_le_iff (b := 10) (n := n) (k := k + 1) (by decide) (by omega)
      omega

namespace Interval

/-- The magnitude is right. -/
theorem magnitude_spec {i : Interval} (den : 0 < i.denominator)
    (enough : i.denominator ≤ i.value * 10 ^ 400) :
    (10 : ℚ) ^ (i.magnitude - 1) ≤ i.centre ∧ i.centre < (10 : ℚ) ^ i.magnitude := by
  have den' : (0 : ℚ) < i.denominator := by exact_mod_cast den
  unfold magnitude centre
  rw [le_div_iff₀ den', div_lt_iff₀ den']
  split
  · next le =>
      obtain ⟨k, length⟩ : ∃ k, (Nat.toDigits 10 (i.value / i.denominator)).length = k + 1 :=
        Nat.exists_eq_add_one.2 Nat.length_toDigits_pos
      obtain ⟨low, high⟩ := (toDigits_length (Nat.div_pos le den)).1 length
      rw [length]
      push_cast
      rw [add_sub_cancel_right]
      constructor
      · exact_mod_cast (Nat.le_div_iff_mul_le den).1 low
      · exact_mod_cast (Nat.div_lt_iff_lt_mul den).1 high
  · next lt =>
      obtain ⟨reached, before⟩ := leadingZeros_spec enough
      obtain ⟨z, zeros⟩ : ∃ z, leadingZeros 400 i.value i.denominator = z + 1 := by
        refine Nat.exists_eq_succ_of_ne_zero fun none => lt ?_
        rw [none] at reached
        simpa using reached
      rw [zeros] at reached before ⊢
      have near := before z (by omega)
      have first : (i.denominator : ℚ) ≤ i.value * 10 ^ (z + 1) := by exact_mod_cast reached
      have second : (i.value : ℚ) * 10 ^ z < i.denominator := by exact_mod_cast near
      have below : (1 : Int) - (z + 1 : Nat) - 1 = -(z + 1 : Nat) := by omega
      have above : (1 : Int) - (z + 1 : Nat) = -(z : Nat) := by omega
      rw [below, above, zpow_neg, zpow_neg, zpow_natCast, zpow_natCast]
      constructor
      · rw [inv_mul_le_iff₀ (by positivity)]
        linarith
      · rw [lt_inv_mul_iff₀ (by positivity)]
        linarith

end Interval

/-! ## Digits -/

namespace Interval

variable {i : Interval} {k : Int} {n : Nat}

/-- The factor that brings numerators to a grid of `n` digits. -/
def stretch (k : Int) (n : Nat) : Nat := Nat.pow 10 ((n : Int) - k).toNat

/-- The distance of two decimals on a grid of `n` digits. -/
def unit (i : Interval) (k : Int) (n : Nat) : Nat := i.denominator * Nat.pow 10 (k - n).toNat

/-- The decimal below the double, or the one above it, or none. -/
theorem digits?_cases (i : Interval) (k : Int) (n : Nat) :
    let c := i.value * stretch k n / i.unit k n
    let low := i.low * stretch k n < c * i.unit k n ∨
      i.closed = true ∧ i.low * stretch k n = c * i.unit k n
    let high := (c + 1) * i.unit k n < i.high * stretch k n ∨
      i.closed = true ∧ (c + 1) * i.unit k n = i.high * stretch k n
    (i.digits? k n = none ∧ ¬ low ∧ ¬ high) ∨ (i.digits? k n = some c ∧ low) ∨
      (i.digits? k n = some (c + 1) ∧ high) := by
  intro c low high
  have decided : ∀ {a b : Nat},
      (decide (a < b) || (i.closed && a == b)) = true ↔ a < b ∨ i.closed = true ∧ a = b := by simp
  unfold digits?
  dsimp only
  split
  · next l h =>
      refine .inl ⟨rfl, fun fits => ?_, fun fits => ?_⟩
      · exact Bool.eq_false_iff.1 l (decided.2 fits)
      · exact Bool.eq_false_iff.1 h (decided.2 fits)
  · next l h => exact .inr (.inl ⟨rfl, decided.1 l⟩)
  · next l h => exact .inr (.inr ⟨rfl, decided.1 h⟩)
  · next l h =>
      split
      · exact .inr (.inl ⟨rfl, decided.1 l⟩)
      · exact .inr (.inr ⟨rfl, decided.1 h⟩)
      · split
        · exact .inr (.inl ⟨rfl, decided.1 l⟩)
        · exact .inr (.inr ⟨rfl, decided.1 h⟩)

/-- Both sides of the comparisons on a grid are rationals, times one factor. -/
theorem grid (den : 0 < i.denominator) (k : Int) (n : Nat) : ∃ s : ℚ, 0 < s ∧
    (∀ a : Nat, ((a * stretch k n : Nat) : ℚ) = a / i.denominator * s) ∧
    ∀ c : Nat, ((c * i.unit k n : Nat) : ℚ) = c * 10 ^ (k - n) * s := by
  have den' : (i.denominator : ℚ) ≠ 0 := by exact_mod_cast den.ne'
  have opposite : -(k - n) = (n : Int) - k := by ring
  have power := pow_toNat (b := 10) (by decide) (k - n)
  rw [opposite] at power
  refine ⟨i.denominator * stretch k n, ?_, fun a => ?_, fun c => ?_⟩
  · have : 0 < i.denominator * stretch k n := Nat.mul_pos den (Nat.pow_pos (by decide))
    exact_mod_cast this
  · rw [Nat.cast_mul]
    field_simp
  · rw [unit, Nat.cast_mul, Nat.cast_mul, power, stretch]
    push_cast
    ring

/-- The decimals next to the double on the grid, and which of them is chosen. -/
theorem digits?_between (den : 0 < i.denominator) (k : Int) (n : Nat) : ∃ c : Nat,
    c * (10 : ℚ) ^ (k - n) ≤ i.centre ∧ i.centre < (c + 1 : Nat) * (10 : ℚ) ^ (k - n) ∧
    ((i.digits? k n = none ∧
        ¬ i.AtLeast (c * 10 ^ (k - n)) ∧ ¬ i.AtMost ((c + 1 : Nat) * 10 ^ (k - n))) ∨
      (i.digits? k n = some c ∧ i.AtLeast (c * 10 ^ (k - n))) ∨
      (i.digits? k n = some (c + 1) ∧ i.AtMost ((c + 1 : Nat) * 10 ^ (k - n)))) := by
  obtain ⟨s, pos, stretched, united⟩ := grid den k n
  have unit : 0 < i.unit k n := Nat.mul_pos den (Nat.pow_pos (by decide))
  have le : ∀ {a c : Nat}, c * i.unit k n ≤ a * stretch k n ↔
      c * (10 : ℚ) ^ (k - n) ≤ a / i.denominator := by
    intro a c
    rw [← Nat.cast_le (α := ℚ), stretched, united, mul_le_mul_iff_left₀ pos]
  have ge : ∀ {a c : Nat}, a * stretch k n ≤ c * i.unit k n ↔
      a / i.denominator ≤ c * (10 : ℚ) ^ (k - n) := by
    intro a c
    rw [← Nat.cast_le (α := ℚ), stretched, united, mul_le_mul_iff_left₀ pos]
  have cases := i.digits?_cases k n
  dsimp only at cases
  refine ⟨i.value * stretch k n / i.unit k n, ?_, ?_, ?_⟩
  · exact le.1 (Nat.div_mul_le_self _ _)
  · have next := Nat.lt_mul_of_div_lt (Nat.lt_succ_self (i.value * stretch k n / i.unit k n)) unit
    exact lt_of_not_ge fun above => not_lt_of_ge (le.2 above) next
  · simp only [← not_le, le_antisymm_iff, le, ge] at cases
    simpa only [AtLeast, AtMost, lower, upper, ← not_le, le_antisymm_iff] using cases

/-- A number chosen from the grid lies in the interval, and has the digits that it should. -/
theorem digits?_eq_some (den : 0 < i.denominator) (lower : i.lower < i.centre)
    (upper : i.centre < i.upper) (low : (10 : ℚ) ^ (k - 1) ≤ i.centre)
    (high : i.centre < (10 : ℚ) ^ k) {c : Nat} (h : i.digits? k (n + 1) = some c) :
    i.Contains (c * 10 ^ (k - (n + 1 : Nat))) ∧ 10 ^ n ≤ c ∧ c ≤ 10 ^ (n + 1) := by
  obtain ⟨d, below, above, choice⟩ := digits?_between den k (n + 1)
  have pos : (0 : ℚ) < 10 ^ (k - (n + 1 : Nat)) := by positivity
  have exponent : k - 1 - (n : Int) = k - (n + 1 : Nat) := by push_cast; ring
  have least : 10 ^ n < d + 1 := by
    rw [← ten_pow_mul n (k - 1), exponent] at low
    exact_mod_cast lt_of_mul_lt_mul_right (lt_of_le_of_lt low above) pos.le
  have most : d < 10 ^ (n + 1) := by
    rw [← ten_pow_mul (n + 1) k] at high
    exact_mod_cast lt_of_mul_lt_mul_right (lt_of_le_of_lt below high) pos.le
  obtain ⟨none, -⟩ | ⟨some, fits⟩ | ⟨some, fits⟩ := choice
  · rw [none] at h; cases h
  · cases some.symm.trans h
    exact ⟨⟨fits, .inl (lt_of_le_of_lt below upper)⟩, by omega, by omega⟩
  · cases some.symm.trans h
    exact ⟨⟨.inl (lt_trans lower above), fits⟩, by omega, by omega⟩

end Interval

theorem interval_denominator_pos (m : Nat) (q : Int) : 0 < (interval m q).denominator :=
  Nat.pow_pos (by decide)

theorem interval_enough (fits : Fits m q) (pos : 0 < m) {fuel : Nat} (h : 1076 ≤ 3 * fuel) :
    (interval m q).denominator ≤ (interval m q).value * 10 ^ fuel := by
  have value : 0 < (interval m q).value := Nat.mul_pos (by omega) (Nat.pow_pos (by decide))
  have least := fits.least
  calc (interval m q).denominator
      ≤ 2 ^ (3 * fuel) := Nat.pow_le_pow_right (by decide) (by omega)
    _ = (2 ^ 3) ^ fuel := Nat.pow_mul ..
    _ ≤ 10 ^ fuel := Nat.pow_le_pow_left (by decide) fuel
    _ ≤ (interval m q).value * 10 ^ fuel := Nat.le_mul_of_pos_left _ value

theorem interval_order (pos : 0 < m) : (interval m q).lower < (interval m q).centre ∧
    (interval m q).centre < (interval m q).upper := by
  have step : (0 : ℚ) < 2 ^ (q - 2) := by positivity
  rw [interval_lower, interval_centre, interval_upper, mul_lt_mul_iff_left₀ step,
    mul_lt_mul_iff_left₀ step, Nat.cast_lt, Nat.cast_lt]
  unfold reach
  split <;> omega

theorem magnitude_interval (fits : Fits m q) (pos : 0 < m) :
    (10 : ℚ) ^ ((interval m q).magnitude - 1) ≤ (interval m q).centre ∧
      (interval m q).centre < (10 : ℚ) ^ (interval m q).magnitude :=
  Interval.magnitude_spec (interval_denominator_pos m q) (interval_enough fits pos (by decide))

/-- Seventeen digits suffice: on that grid the decimals are closer to each other than the ends of
    the interval. -/
theorem digits?_seventeen (fits : Fits m q) (pos : 0 < m) :
    (interval m q).digits? (interval m q).magnitude 17 ≠ none := by
  intro missing
  obtain ⟨c, -, -, choice⟩ :=
    Interval.digits?_between (interval_denominator_pos m q) (interval m q).magnitude 17
  obtain ⟨-, low, high⟩ | ⟨some, -⟩ | ⟨some, -⟩ := choice
  · have least := (magnitude_interval fits pos).1
    generalize (interval m q).magnitude = k at low high least
    have step : (0 : ℚ) < 2 ^ (q - 2) := by positivity
    have narrow : (interval m q).upper - (interval m q).lower ≤ 10 ^ (k - (17 : Nat)) := by
      have under := not_lt.1 (not_or.1 low).1
      have above := not_lt.1 (not_or.1 high).1
      push_cast at under above ⊢
      linarith
    have power := ten_pow_mul 16 (k - 1)
    rw [show k - 1 - (16 : Nat) = k - (17 : Nat) by push_cast; ring] at power
    have wide : (10 : ℚ) ^ 16 * ((interval m q).upper - (interval m q).lower) ≤
        (interval m q).centre := by linarith
    rw [interval_lower, interval_centre, interval_upper, ← sub_mul, ← mul_assoc,
      mul_le_mul_iff_left₀ step, Nat.cast_sub (by have := reach_le m q; omega)] at wide
    push_cast at wide
    have numbers : 10 ^ 16 * (2 + reach m q) ≤ 4 * m := by
      have : (10 : ℚ) ^ 16 * (2 + reach m q) ≤ 4 * m := by linarith
      exact_mod_cast this
    have below := fits.below
    unfold reach hiddenBit at *
    split at numbers <;> omega
  · rw [some] at missing; cases missing
  · rw [some] at missing; cases missing

/-- The value of `0.ds · 10 ^ k`. -/
def decimal (ds : List Char) (k : Int) : ℚ := Text.natOfDigits ds * 10 ^ (k - ds.length)

theorem decimal_toDigits {c n : Nat} (least : 10 ^ n ≤ c) (most : c < 10 ^ (n + 1)) (k : Int) :
    decimal (Nat.toDigits 10 c) k = c * 10 ^ (k - (n + 1 : Nat)) := by
  have pos : 0 < c := lt_of_lt_of_le (Nat.pow_pos (by decide)) least
  have digits : Text.natOfDigits (Nat.toDigits 10 c) = c :=
    Nat.ofDigitChars_toDigits (by decide) (by decide)
  rw [decimal, digits, (toDigits_length pos).2 ⟨least, most⟩]

theorem isAsciiDigit_of_mem_toDigits {c : Char} {n : Nat} (h : c ∈ Nat.toDigits 10 n) :
    Text.isAsciiDigit c = true := Nat.isDigit_of_mem_toDigits (by decide) (by decide) h

/-- The first grid with a number in the interval. -/
theorem shortest_eq (fits : Fits m q) (pos : 0 < m) : ∃ c n,
    (interval m q).digits? (interval m q).magnitude (n + 1) = some c ∧
    shortest m q =
      if c = 10 ^ (n + 1) then (['1'], (interval m q).magnitude + 1)
      else (Nat.toDigits 10 c, (interval m q).magnitude) := by
  unfold shortest
  dsimp only
  generalize search : (List.range 17).findSome? _ = found
  cases found with
  | none =>
      have missing := List.findSome?_eq_none_iff.1 search 16 (by decide)
      exact absurd (Option.map_eq_none_iff.1 missing) (digits?_seventeen fits pos)
  | some p =>
      obtain ⟨n, -, hit⟩ := List.exists_of_findSome?_eq_some search
      obtain ⟨c, digits, rfl⟩ := Option.map_eq_some_iff.1 hit
      exact ⟨c, n, digits, rfl⟩

/-- The shortest digits are the digits of a number that rounds to the double. -/
theorem shortest_spec (fits : Fits m q) (pos : 0 < m) :
    (shortest m q).1 ≠ [] ∧ (∀ c ∈ (shortest m q).1, Text.isAsciiDigit c = true) ∧
      (interval m q).Contains (decimal (shortest m q).1 (shortest m q).2) := by
  obtain ⟨lower, upper⟩ := interval_order (q := q) pos
  obtain ⟨low, high⟩ := magnitude_interval fits pos
  obtain ⟨c, n, digits, eq⟩ := shortest_eq fits pos
  obtain ⟨inside, least, most⟩ :=
    Interval.digits?_eq_some (interval_denominator_pos m q) lower upper low high digits
  rw [eq]
  split
  · next next =>
      refine ⟨by simp, by simp [Text.isAsciiDigit], ?_⟩
      have power := ten_pow_mul (n + 1) (interval m q).magnitude
      rw [next] at inside
      push_cast at inside power
      rw [power] at inside
      simpa [decimal, Text.natOfDigits] using inside
  · next short =>
      refine ⟨Nat.toDigits_ne_nil, fun _ => isAsciiDigit_of_mem_toDigits, ?_⟩
      rw [decimal_toDigits least (by omega)]
      exact inside

end Cadence.Double
