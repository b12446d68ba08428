/-
  The text of a double says which double it is.

  The reader of decimal numbers finds in a written number the value of its digits
  (`decimalParts?_write`). Two doubles with the same text therefore have digits of the same value,
  and as that value rounds to both of them, they are one (`text_inj`).
-/
import Cadence.Proofs.Shortest
import Mathlib.Data.Bool.AllAny

namespace Cadence

/-! ## Digits -/

namespace Text

theorem natOfDigits_eq (ds : List Char) : natOfDigits ds = Nat.ofDigitChars 10 ds 0 := rfl

theorem natOfDigits_zeros_append (n : Nat) (ds : List Char) :
    natOfDigits (List.replicate n '0' ++ ds) = natOfDigits ds := by
  rw [natOfDigits_eq, Nat.ofDigitChars_append, Nat.ofDigitChars_replicate_zero]
  simp [natOfDigits_eq]

theorem natOfDigits_append_zeros (ds : List Char) (n : Nat) :
    natOfDigits (ds ++ List.replicate n '0') = natOfDigits ds * 10 ^ n := by
  rw [natOfDigits_eq, Nat.ofDigitChars_append, Nat.ofDigitChars_replicate_zero, natOfDigits_eq]
  ring

theorem natOfDigits_toDigits (n : Nat) : natOfDigits (Nat.toDigits 10 n) = n :=
  Nat.ofDigitChars_toDigits (by decide) (by decide)

/-- The value of a decimal number. -/
def DecimalParts.value (p : DecimalParts) : ℚ :=
  natOfDigits (p.whole ++ p.fraction) * 10 ^ (p.exponent - p.fraction.length)

/-- Digits end where a character is none. -/
theorem span_digits {ds r : List Char} (digits : ∀ c ∈ ds, isAsciiDigit c = true)
    (stop : ∀ c ∈ r.head?, isAsciiDigit c = false) :
    (ds ++ r).takeWhile isAsciiDigit = ds ∧ (ds ++ r).dropWhile isAsciiDigit = r := by
  rw [List.takeWhile_append_of_pos digits, List.dropWhile_append_of_pos digits]
  cases r with
  | nil => simp
  | cons c r => simp [stop c rfl]

theorem decimalParts?_whole {ds r : List Char} (filled : ds ≠ [])
    (digits : ∀ c ∈ ds, isAsciiDigit c = true) :
    decimalParts? (ds ++ 'e' :: r) =
      (takeExponent? ('e' :: r)).map fun exponent => ⟨ds, [], exponent⟩ := by
  obtain ⟨taken, dropped⟩ := span_digits (r := 'e' :: r) digits (by simp [isAsciiDigit])
  unfold decimalParts?
  rw [taken, dropped]
  simp [filled]

theorem decimalParts?_point {w f r : List Char} (filled : w ≠ [])
    (whole : ∀ c ∈ w, isAsciiDigit c = true) (fraction : ∀ c ∈ f, isAsciiDigit c = true)
    (stop : ∀ c ∈ r.head?, isAsciiDigit c = false) :
    decimalParts? (w ++ '.' :: (f ++ r)) =
      (takeExponent? r).map fun exponent => ⟨w, f, exponent⟩ := by
  obtain ⟨taken, dropped⟩ := span_digits (r := '.' :: (f ++ r)) whole (by simp [isAsciiDigit])
  obtain ⟨taken', dropped'⟩ := span_digits fraction stop
  unfold decimalParts?
  rw [taken, dropped]
  simp [filled, taken', dropped']

end Text

namespace Double

open Text

theorem takeExponent?_write (e : Int) (width : Nat) :
    takeExponent? ('e' :: (if e < 0 then '-' else '+') ::
      padLeft width (Nat.toDigits 10 e.natAbs)) = some e := by
  have digits : (padLeft width (Nat.toDigits 10 e.natAbs)).all isAsciiDigit = true := by
    rw [List.all_eq_true]
    intro c hc
    rcases List.mem_append.1 hc with zero | digit
    · rw [(List.mem_replicate.1 zero).2]
      rfl
    · exact isAsciiDigit_of_mem_toDigits digit
  have filled : (padLeft width (Nat.toDigits 10 e.natAbs)).isEmpty = false := by
    simp [padLeft, Nat.toDigits_ne_nil]
  have value : natOfDigits (padLeft width (Nat.toDigits 10 e.natAbs)) = e.natAbs := by
    rw [padLeft, natOfDigits_zeros_append, natOfDigits_toDigits]
  by_cases negative : e < 0
  · have back : -(e.natAbs : Int) = e := by omega
    rw [if_pos negative]
    simp only [takeExponent?, takeSign, digits, filled, value, negate]
    exact congrArg some back
  · have back : (e.natAbs : Int) = e := by omega
    rw [if_neg negative]
    simp only [takeExponent?, takeSign, digits, filled, value, negate]
    exact congrArg some back

/-- A number with a point, by the digits on both sides of it. -/
theorem value_mk {whole fraction ds : List Char} {exponent k : Int} {n : Nat}
    (digits : natOfDigits (whole ++ fraction) = natOfDigits ds * 10 ^ n)
    (place : (n : Int) + (exponent - fraction.length) = k - ds.length) :
    (DecimalParts.mk whole fraction exponent).value = decimal ds k := by
  rw [DecimalParts.value, decimal, digits, ← place, zpow_add₀ (by norm_num), zpow_natCast]
  push_cast
  ring

section Write

variable {ds : List Char} (digits : ∀ c ∈ ds, isAsciiDigit c = true) (filled : ds ≠ [])

include digits filled

theorem decimalParts?_positional (k : Int) :
    ∃ p, decimalParts? (positional ds k) = some p ∧ p.value = decimal ds k := by
  have zeros : ∀ n, ∀ c ∈ List.replicate n '0', isAsciiDigit c = true := by
    intro n c hc
    rw [(List.mem_replicate.1 hc).2]
    rfl
  unfold positional
  split
  · next small =>
      have hf : ∀ c ∈ List.replicate (-k).toNat '0' ++ ds, isAsciiDigit c = true := by
        intro c hc
        exact (List.mem_append.1 hc).elim (zeros _ c) (digits c)
      have read := decimalParts?_point (w := ['0']) (r := []) (by simp)
        (by simp [isAsciiDigit]) hf (by simp)
      rw [List.append_nil] at read
      refine ⟨_, read, value_mk (n := 0) ?_ ?_⟩
      · have := natOfDigits_zeros_append ((-k).toNat + 1) ds
        simpa [List.replicate_succ] using this
      · rw [List.length_append, List.length_replicate]
        omega
  · split
    · next large long =>
        have hw : ∀ c ∈ ds ++ List.replicate (k.toNat - ds.length) '0', isAsciiDigit c = true := by
          intro c hc
          exact (List.mem_append.1 hc).elim (digits c) (zeros _ c)
        have read := decimalParts?_point (f := ['0']) (r := []) (by simp [filled]) hw
          (by simp [isAsciiDigit]) (by simp)
        refine ⟨_, read, value_mk (n := k.toNat - ds.length + 1) ?_ ?_⟩
        · rw [← natOfDigits_append_zeros, List.replicate_succ', List.append_assoc]
        · rw [List.length_singleton]
          omega
    · next large short =>
        have hw : ∀ c ∈ ds.take k.toNat, isAsciiDigit c = true :=
          fun c hc => digits c (List.mem_of_mem_take hc)
        have hf : ∀ c ∈ ds.drop k.toNat, isAsciiDigit c = true :=
          fun c hc => digits c (List.mem_of_mem_drop hc)
        have some : ds.take k.toNat ≠ [] := by
          rw [Ne, List.take_eq_nil_iff]
          exact not_or.2 ⟨by omega, filled⟩
        have read := decimalParts?_point (r := []) some hw hf (by simp)
        rw [List.append_nil] at read
        refine ⟨_, read, value_mk (n := 0) (by simp) ?_⟩
        rw [List.length_drop]
        omega

theorem decimalParts?_scientific (f : Format) (k : Int) :
    ∃ p, decimalParts? (scientific f ds k) = some p ∧ p.value = decimal ds k := by
  have exponent := takeExponent?_write (k - 1) f.exponentDigits
  cases ds with
  | nil => exact absurd rfl filled
  | cons d rest =>
      cases rest with
      | nil =>
          refine ⟨⟨[d], [], k - 1⟩, ?_, value_mk (n := 0) (by simp) (by simp)⟩
          exact (decimalParts?_whole (by simp) digits).trans (by rw [exponent]; rfl)
      | cons e rest =>
          have hw : ∀ c ∈ [d], isAsciiDigit c = true := fun c hc =>
            digits c (List.mem_cons.2 (.inl (List.mem_singleton.1 hc)))
          have hf : ∀ c ∈ e :: rest, isAsciiDigit c = true := fun c hc => digits c (.tail _ hc)
          refine ⟨⟨[d], e :: rest, k - 1⟩, ?_, value_mk (n := 0) (by simp) ?_⟩
          · refine (decimalParts?_point (by simp) hw hf ?_).trans (by rw [exponent]; rfl)
            simp [isAsciiDigit]
          · rw [List.length_cons, List.length_cons, List.length_cons]
            omega

/-- What is written reads as the value of its digits. -/
theorem decimalParts?_write (k : Int) :
    ∃ p, decimalParts? (format.write ds k) = some p ∧ p.value = decimal ds k := by
  unfold Format.write
  split
  · exact decimalParts?_positional digits filled k
  · exact decimalParts?_scientific digits filled format k

end Write

/-- The digits of a finite double and their magnitude. -/
def digitsOf (m : Nat) (q : Int) : List Char × Int :=
  if m = 0 then (['0'], 1) else shortest m q

theorem digitsOf_spec {m : Nat} {q : Int} (fits : Fits m q) :
    (digitsOf m q).1 ≠ [] ∧ (∀ c ∈ (digitsOf m q).1, isAsciiDigit c = true) ∧
      (m = 0 ∧ decimal (digitsOf m q).1 (digitsOf m q).2 = 0 ∨
        0 < m ∧ (interval m q).Contains (decimal (digitsOf m q).1 (digitsOf m q).2)) := by
  unfold digitsOf
  split
  · next zero =>
      refine ⟨by simp, by simp [isAsciiDigit], .inl ⟨zero, ?_⟩⟩
      simp [decimal, natOfDigits]
  · next nonzero =>
      have pos : 0 < m := Nat.pos_of_ne_zero nonzero
      obtain ⟨filled, digits, inside⟩ := shortest_spec fits pos
      exact ⟨filled, digits, .inr ⟨pos, inside⟩⟩

/-- The sign of a written number, and its parts if it has any. -/
def reading (s : String) : Bool × Option DecimalParts :=
  let (negative, cs) := takeSign s.toList
  (negative, decimalParts? cs)

theorem takeSign_of_decimalParts? {cs : List Char} {p : DecimalParts}
    (h : decimalParts? cs = some p) : takeSign cs = (false, cs) := by
  unfold takeSign
  split
  · cases h
  · cases h
  · rfl

theorem reading_finite {x : Float} {negative : Bool} {m : Nat} {q : Int}
    (h : view x = .finite negative m q) : ∃ p, reading (text x) = (negative, some p) ∧
      p.value = decimal (digitsOf m q).1 (digitsOf m q).2 := by
  obtain ⟨filled, digits, -⟩ := digitsOf_spec (view_fits h)
  obtain ⟨p, read, value⟩ := decimalParts?_write digits filled (digitsOf m q).2
  refine ⟨p, ?_, value⟩
  have body : (text x).toList =
      if negative then '-' :: format.write (digitsOf m q).1 (digitsOf m q).2
      else format.write (digitsOf m q).1 (digitsOf m q).2 := by
    unfold text
    rw [h]
    exact String.toList_ofList
  unfold reading
  rw [body]
  cases negative with
  | true => exact congrArg (Prod.mk true) read
  | false =>
      simp only [Bool.false_eq_true, if_false]
      rw [takeSign_of_decimalParts? read]
      exact congrArg (Prod.mk false) read

theorem reading_other {x : Float} (h : ∀ negative m q, view x ≠ .finite negative m q) :
    (reading (text x)).2 = none := by
  unfold text
  split
  · rfl
  · next negative _ => cases negative <;> rfl
  · next negative m q finite => exact absurd finite (h negative m q)

theorem Fits.exponent_of_zero {q : Int} (fits : Fits 0 q) : q = -1074 := by
  have least := fits.least
  have full := fits.full
  unfold hiddenBit at full
  omega

/-- Finite doubles are told apart by the values of their digits. -/
theorem finite_inj {m m' : Nat} {q q' : Int} (fits : Fits m q) (fits' : Fits m' q')
    (h : decimal (digitsOf m q).1 (digitsOf m q).2 =
      decimal (digitsOf m' q').1 (digitsOf m' q').2) : m = m' ∧ q = q' := by
  obtain ⟨-, -, ⟨rfl, zero⟩ | ⟨pos, inside⟩⟩ := digitsOf_spec fits
  · obtain ⟨-, -, ⟨rfl, -⟩ | ⟨pos', inside'⟩⟩ := digitsOf_spec fits'
    · exact ⟨rfl, fits.exponent_of_zero.trans fits'.exponent_of_zero.symm⟩
    · rw [← h, zero] at inside'
      exact absurd (contains_pos pos' inside') (lt_irrefl 0)
  · obtain ⟨-, -, ⟨rfl, zero'⟩ | ⟨pos', inside'⟩⟩ := digitsOf_spec fits'
    · rw [h, zero'] at inside
      exact absurd (contains_pos pos inside) (lt_irrefl 0)
    · rw [← h] at inside'
      exact contains_unique fits fits' inside inside'

theorem view_eq_of_finite {x y : Float} (h : text x = text y) {negative : Bool} {m : Nat} {q : Int}
    (hx : view x = .finite negative m q) : view y = .finite negative m q := by
  obtain ⟨p, read, value⟩ := reading_finite hx
  by_cases finite : ∃ negative' m' q', view y = .finite negative' m' q'
  · obtain ⟨negative', m', q', hy⟩ := finite
    obtain ⟨p', read', value'⟩ := reading_finite hy
    rw [h, read'] at read
    cases read
    obtain ⟨rfl, rfl⟩ := finite_inj (view_fits hx) (view_fits hy) (value.symm.trans value')
    exact hy
  · have other := reading_other (x := y) fun negative m q hy => finite ⟨negative, m, q, hy⟩
    rw [← h, read] at other
    cases other

/-- Doubles with the same text are the same. -/
theorem text_inj {x y : Float} (h : text x = text y) : x = y := by
  apply view_inj
  rcases hx : view x with _ | a | ⟨negative, m, q⟩
  · rcases hy : view y with _ | b | ⟨negative, m, q⟩
    · rfl
    · cases b <;> simp [text, hx, hy] at h
    · rw [view_eq_of_finite h.symm hy] at hx
      cases hx
  · rcases hy : view y with _ | b | ⟨negative, m, q⟩
    · cases a <;> simp [text, hx, hy] at h
    · cases a <;> cases b <;> simp_all [text]
    · rw [view_eq_of_finite h.symm hy] at hx
      cases hx
  · exact (view_eq_of_finite h hx).symm

/-! ## Characters -/

/-- The characters of written numbers. -/
def IsNumeric (c : Char) : Prop := isAsciiDigit c = true ∨ c ∈ ['.', 'e', '+', '-']

instance : DecidablePred IsNumeric := fun _ => inferInstanceAs (Decidable (_ ∨ _))

theorem zeros_numeric (n : Nat) : ∀ c ∈ List.replicate n '0', IsNumeric c := by
  intro c hc
  rw [(List.mem_replicate.1 hc).2]
  exact .inl rfl

section Numeric

variable {ds : List Char} (numeric : ∀ c ∈ ds, IsNumeric c)

include numeric

theorem positional_numeric (k : Int) : ∀ c ∈ positional ds k, IsNumeric c := by
  have point : IsNumeric '.' := .inr (by decide)
  have zero : IsNumeric '0' := .inl rfl
  have some : ∀ n, ∀ c ∈ ds.take n, IsNumeric c :=
    fun _ c hc => numeric c (List.mem_of_mem_take hc)
  have others : ∀ n, ∀ c ∈ ds.drop n, IsNumeric c :=
    fun _ c hc => numeric c (List.mem_of_mem_drop hc)
  unfold positional
  split
  · simp only [List.forall_mem_cons, List.forall_mem_append]
    exact ⟨zero, point, zeros_numeric _, numeric⟩
  · split
    · simp only [List.forall_mem_cons, List.forall_mem_append]
      exact ⟨⟨numeric, zeros_numeric _⟩, point, zero, by simp⟩
    · simp only [List.forall_mem_cons, List.forall_mem_append]
      exact ⟨some _, point, others _⟩

theorem scientific_numeric (f : Format) (k : Int) : ∀ c ∈ scientific f ds k, IsNumeric c := by
  have power : ∀ c ∈ padLeft f.exponentDigits (Nat.toDigits 10 (k - 1).natAbs), IsNumeric c := by
    unfold padLeft
    rw [List.forall_mem_append]
    exact ⟨zeros_numeric _, fun c hc => .inl (isAsciiDigit_of_mem_toDigits hc)⟩
  have sign : IsNumeric (if k - 1 < 0 then '-' else '+') := by
    split <;> exact .inr (by decide)
  unfold scientific
  simp only [List.forall_mem_append, List.forall_mem_cons]
  refine ⟨?_, .inr (by decide), sign, power⟩
  split
  · simp only [List.forall_mem_cons] at numeric ⊢
    exact ⟨numeric.1, .inr (by decide), numeric.2⟩
  · exact numeric

theorem write_numeric (k : Int) : ∀ c ∈ format.write ds k, IsNumeric c := by
  unfold Format.write
  split
  · exact positional_numeric numeric k
  · exact scientific_numeric numeric format k

end Numeric

/-- The text of a double has none of the characters that separate the parts of a track file. -/
theorem text_chars (x : Float) : ∀ c ∈ (text x).toList, c ∉ [',', ':', '[', ']', '\n'] := by
  have plain : ∀ c ∈ [',', ':', '[', ']', '\n'], ¬ IsNumeric c :=
    List.all_iff_forall_prop.1 (by decide)
  unfold text
  split
  · exact List.all_iff_forall_prop.1 (by decide)
  · split <;> exact List.all_iff_forall_prop.1 (by decide)
  · next negative m q finite =>
      obtain ⟨-, digits, -⟩ := digitsOf_spec (view_fits finite)
      have body : ∀ c ∈ format.write (digitsOf m q).1 (digitsOf m q).2, IsNumeric c :=
        write_numeric (fun c hc => .inl (digits c hc)) _
      intro c hc separator
      apply plain c separator
      dsimp only at hc
      rw [String.toList_ofList] at hc
      split at hc
      · exact (List.mem_cons.1 hc).elim (fun minus => minus ▸ .inr (by decide)) (body c)
      · exact body c hc

end Double

end Cadence
