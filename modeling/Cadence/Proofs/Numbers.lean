/-
  Integers and pitches in their ranges.

  Results of integer arithmetic are 64-bit integers, and these can all be converted to doubles. A
  pitch that has a semitone has one from 0 to 119, and the pitch made from such a semitone is a
  name of it. Only a name that ends in a digit without decimal value is read with a defect.
-/
import Cadence.Operator
import Cadence.Proofs.Results

namespace Cadence

/-! ## Integers -/

namespace Integer

/-- The signed 64-bit range. -/
def InRange (n : Int) : Prop := -maxInt - 1 ≤ n ∧ n ≤ maxInt

instance (n : Int) : Decidable (InRange n) := inferInstanceAs (Decidable (_ ∧ _))

theorem inRange_iff {n : Int} :
    InRange n ↔ -0x8000000000000000 ≤ n ∧ n ≤ 0x7fffffffffffffff := by
  unfold InRange maxInt
  omega

theorem wrap_inRange (n : Int) : InRange (wrap n) := by
  rw [inRange_iff]
  unfold wrap maxInt modulus
  dsimp only
  split <;> omega

theorem div_yields {E : Failure → Prop} (zero : E (.fault .divisionByZero)) (a b : Int) :
    Yields InRange E (div a b) := by
  unfold div
  split
  · exact .error zero
  · exact .ok (wrap_inRange _)

theorem mod_yields {E : Failure → Prop} (zero : E (.fault .moduloByZero)) (a b : Int) :
    Yields InRange E (mod a b) := by
  unfold mod
  split
  · exact .error zero
  · exact .ok (wrap_inRange _)

theorem natAbs_le_of_inRange {n : Int} (h : InRange n) : n.natAbs ≤ 0x8000000000000000 := by
  rw [inRange_iff] at h
  omega

/-- No 64-bit integer is too large for a double. -/
theorem toDouble_yields {E : Failure → Prop} {n : Int} (h : InRange n) :
    Yields (fun _ => True) E (toDouble n) := by
  have small : n.natAbs < Double.overflow := by
    have below : 0x8000000000000000 < Double.overflow := by decide +kernel
    have := natAbs_le_of_inRange h
    omega
  unfold toDouble Double.ofInt?
  rw [if_pos small]
  exact .ok trivial

end Integer

/-! ## Pitches -/

theorem Text.decimalValue?_lt {c : Char} {n : Nat} (h : decimalValue? c = some n) : n < 10 := by
  unfold decimalValue? at h
  dsimp only at h
  split at h
  · split at h
    · have := Option.some.inj h
      omega
    · cases h
  · obtain ⟨z, hz, rfl⟩ := Option.map_eq_some_iff.1 h
    have := List.find?_some hz
    simp only [Bool.and_eq_true, decide_eq_true_eq] at this
    omega

namespace Pitch

/-- The name does not end in a digit that has no decimal value, such as a superscript. -/
def Regular (name : String) : Prop :=
  ∀ c ∈ name.toList.getLast?, Text.isDigit c = true → (Text.decimalValue? c).isSome = true

instance (name : String) : Decidable (Regular name) :=
  match h : name.toList.getLast? with
  | none => isTrue (by simp [Regular, h])
  | some c =>
      decidable_of_iff (Text.isDigit c = true → (Text.decimalValue? c).isSome = true)
        (by simp [Regular, h])

theorem step?_lt {s : String} {k : Nat} (h : step? s = some k) : k < 12 := by
  obtain ⟨bound, -⟩ := List.findIdx?_eq_some_iff_getElem.1 h
  exact bound

/-- A name is at fault, or its semitone is left to the octave that its last character gives. -/
theorem semitone_cases (name : String) :
    (∃ f, semitone name = .error (.fault f)) ∨
    ∃ last step, name.toList.getLast? = some last ∧ Text.isDigit last = true ∧ step < 12 ∧
      semitone name = (octave last).map fun n => 12 * (n : Int) + (step : Nat) := by
  unfold semitone
  dsimp only
  split
  · next last first rest shape =>
      have ending : name.toList.getLast? = some last := by
        rw [← List.head?_reverse, shape]
        rfl
      split
      · next digit =>
          split
          · next step found => exact .inr ⟨last, step, ending, digit, step?_lt found, rfl⟩
          · exact .inl ⟨_, rfl⟩
      · exact .inl ⟨_, rfl⟩
  · exact .inl ⟨_, rfl⟩

theorem semitone_eq_ok {name : String} {n : Int} (h : semitone name = .ok n) :
    Regular name ∧ 0 ≤ n ∧ n ≤ maxSemitone := by
  obtain ⟨f, fault⟩ | ⟨last, step, ending, -, bound, eq⟩ := semitone_cases name
  · rw [fault] at h; cases h
  · rw [eq, octave] at h
    cases value : Text.decimalValue? last with
    | none => rw [value] at h; cases h
    | some k =>
        rw [value] at h
        have sum : 12 * (k : Int) + step = n := Except.ok.inj h
        have := Text.decimalValue?_lt value
        refine ⟨?_, by omega, by unfold maxSemitone; omega⟩
        simp [Regular, ending, value]

/-- A name is read with a fault at worst, unless it is irregular. -/
theorem semitone_safe {name : String} (h : Regular name) :
    Safe (semitone name) fun n => 0 ≤ n ∧ n ≤ maxSemitone := by
  cases r : semitone name with
  | ok n => exact .ok (semitone_eq_ok r).2
  | error e =>
      obtain ⟨f, fault⟩ | ⟨last, step, ending, digit, -, eq⟩ := semitone_cases name
      · rw [fault] at r; cases r; exact safe_fault f
      · obtain ⟨k, value⟩ := Option.isSome_iff_exists.1 (h last ending digit)
        rw [eq, octave, value] at r
        cases r

/-- The names made for the semitones are names of them. -/
theorem semitone_nameAt {k : Nat} (h : k < 120) :
    semitone (nameAt (k / 12) (k % 12)) = .ok k := by
  have table : ∀ k < 120, (semitone (nameAt (k / 12) (k % 12))).toOption = some (k : Int) := by
    decide +kernel
  have := table k h
  cases r : semitone (nameAt (k / 12) (k % 12)) with
  | ok n => rw [r] at this; exact congrArg Except.ok (Option.some.inj this)
  | error e => rw [r] at this; cases this

theorem ofSemitone_yields {E : Failure → Prop} {n : Int}
    (small : n.natAbs < Nat.pow 10 Text.maxIntDigits) (outside : E (.fault (.pitchOutOfRange n))) :
    Yields (fun name => semitone name = .ok n) E (ofSemitone n) := by
  unfold ofSemitone outOfRange
  rw [if_pos small]
  split
  · exact .error outside
  · next inside =>
      have bounds : 0 ≤ n ∧ n ≤ 119 := by
        unfold maxSemitone at inside
        omega
      have named : semitone (nameAt _ _) = .ok (n.toNat : Int) := semitone_nameAt (by omega)
      rw [Int.toNat_of_nonneg bounds.1] at named
      exact .ok named

end Pitch

end Cadence
