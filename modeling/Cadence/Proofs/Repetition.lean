/-
  Repeated arrays.

  A repeated array is its items over and over (`getElem?_copies`), so to repeat it once more is to
  repeat the items as often as both counts say together (`copies_copies`). The bound on the length
  keeps the product of the counts small, and nothing is wrapped where it is formed
  (`repetition_composes`).
-/
import Cadence.Proofs.Operators
import Cadence.Proofs.WrappedArithmetic

namespace Cadence.Operator

open Integer

variable {items : Array Value}

/-! ## Copies -/

theorem getElem?_copies {times j : Nat} (inside : j < items.size * times) :
    (copies items times)[j]? = items[j % items.size]? := by
  have bound : j % items.size < items.size :=
    Nat.mod_lt _ (Nat.pos_of_mul_pos_right (Nat.zero_lt_of_lt inside))
  rw [Array.getElem?_eq_getElem (by rw [size_copies]; exact inside),
    Array.getElem?_eq_getElem bound]
  exact congrArg some (Array.getElem_ofFn _)

theorem copies_copies (items : Array Value) (m n : Nat) :
    copies (copies items m) n = copies items (m * n) := by
  refine Array.ext_getElem? fun j => ?_
  have sizes : (copies items m).size * n = items.size * (m * n) := by
    rw [size_copies, Nat.mul_assoc]
  by_cases inside : j < items.size * (m * n)
  · have row : j % (items.size * m) < items.size * m :=
      Nat.mod_lt _ (Nat.pos_of_mul_pos_right (by rw [Nat.mul_assoc]; exact Nat.zero_lt_of_lt inside))
    rw [getElem?_copies (by rw [sizes]; exact inside), size_copies, getElem?_copies row,
      getElem?_copies inside, Nat.mod_mul_right_mod]
  · rw [Array.getElem?_eq_none (by rw [size_copies, sizes]; omega),
      Array.getElem?_eq_none (by rw [size_copies]; omega)]

/-! ## The operator -/

/-- When an array can be repeated, and what it gives then. -/
theorem product_eq_ok (nonempty : 0 < items.size) {n : Int} {v : Value} :
    binary (.text "*") (.array items) (.int n) = .ok v ↔
      1 ≤ n ∧ items.size * n ≤ maxArrayLength ∧ v = .array (copies items n.toNat) := by
  show repeated items n = .ok v ↔ _
  rw [repeated_eq nonempty]
  split
  · exact ⟨nofun, fun h => by omega⟩
  · split
    · exact ⟨nofun, fun h => by omega⟩
    · next positive short =>
        refine ⟨fun h => ⟨by omega, by omega, (Except.ok.inj h).symm⟩, ?_⟩
        rintro ⟨-, -, rfl⟩
        rfl

/-- An array that is not empty can be repeated from either side, by every count from one on as long
    as the result is not longer than arrays can be, and the result has the items over and over. If
    it can be repeated by `m` and then by `n`, it can be repeated by their product, which the
    operator itself forms, and that gives the same array. -/
theorem repetition_composes (nonempty : 0 < items.size) (m n : Int) :
    binary (.text "*") (.int n) (.array items) = binary (.text "*") (.array items) (.int n) ∧
    ((∃ v, binary (.text "*") (.array items) (.int n) = .ok v) ↔
      1 ≤ n ∧ items.size * n ≤ maxArrayLength) ∧
    (∀ v, binary (.text "*") (.array items) (.int n) = .ok v →
      ∃ all : Array Value, v = .array all ∧ all.size = items.size * n ∧
        ∀ j < all.size, all[j]? = items[j % items.size]?) ∧
    ∀ v, (binary (.text "*") (.array items) (.int m) >>= fun a =>
        binary (.text "*") a (.int n)) = .ok v →
      (binary (.text "*") (.int m) (.int n) >>= fun k =>
        binary (.text "*") (.array items) k) = .ok v := by
  refine ⟨rfl, ⟨?_, ?_⟩, ?_, ?_⟩
  · rintro ⟨v, h⟩
    obtain ⟨positive, short, -⟩ := (product_eq_ok nonempty).1 h
    exact ⟨positive, short⟩
  · rintro ⟨positive, short⟩
    exact ⟨_, (product_eq_ok nonempty).2 ⟨positive, short, rfl⟩⟩
  · intro v h
    obtain ⟨positive, -, rfl⟩ := (product_eq_ok nonempty).1 h
    refine ⟨_, rfl, natCast_size_copies items (by omega), fun j inside => ?_⟩
    exact getElem?_copies (by rwa [size_copies] at inside)
  · intro v h
    obtain ⟨a, first, second⟩ := bind_eq_ok.1 h
    obtain ⟨hm, -, rfl⟩ := (product_eq_ok nonempty).1 first
    have nonempty' : 0 < (copies items m.toNat).size := by
      rw [size_copies]
      exact Nat.mul_pos nonempty (by omega)
    obtain ⟨hn, short, rfl⟩ := (product_eq_ok nonempty').1 second
    rw [natCast_size_copies items (by omega), Int.mul_assoc] at short
    -- the length is the product of the counts at least
    have positive : 1 * 1 ≤ m * n := Int.mul_le_mul hm hn (by omega) (by omega)
    have few : 1 * (m * n) ≤ items.size * (m * n) :=
      Int.mul_le_mul_of_nonneg_right (by omega) (by omega)
    have limit : maxArrayLength = 1000000 := rfl
    have unwrapped : wrap (m * n) = m * n := wrap_of_inRange (inRange_iff.2 (by omega))
    show binary (.text "*") (.array items) (.int (wrap (m * n))) = _
    rw [unwrapped]
    refine (product_eq_ok nonempty).2 ⟨by omega, short, ?_⟩
    rw [copies_copies, Int.toNat_mul (by omega) (by omega)]

/-- Up to the longest array, in two steps. -/
theorem repetition_composes_longest :
    let item : Value := .array #[.int 7]
    (∃ v, binary (.text "*") (.int 1000000) item = .ok v) ∧
    ∃ v, (binary (.text "*") item (.int 1000) >>= fun a =>
        binary (.text "*") a (.int 1000)) = .ok v ∧
      (binary (.text "*") (.int 1000) (.int 1000) >>= fun k =>
        binary (.text "*") item k) = .ok v := by
  intro item
  have nonempty : 0 < #[Value.int 7].size := by decide
  have first : binary (.text "*") item (.int 1000) = .ok (.array (copies #[.int 7] 1000)) :=
    (product_eq_ok nonempty).2 ⟨by decide, by decide, rfl⟩
  have size : (copies #[.int 7] 1000).size = 1000 := size_copies _ _
  have inside : 0 < (copies #[.int 7] 1000).size := by omega
  have short : (copies #[.int 7] 1000).size * (1000 : Int) ≤ maxArrayLength := by
    rw [size]
    decide
  have second := (product_eq_ok (n := 1000) inside).2 ⟨by decide, short, rfl⟩
  have twice : (binary (.text "*") item (.int 1000) >>= fun a =>
      binary (.text "*") a (.int 1000)) = _ := bind_eq_ok.2 ⟨_, first, second⟩
  obtain ⟨same, admitted, -, -⟩ := repetition_composes nonempty 1 1000000
  obtain ⟨-, -, -, composes⟩ := repetition_composes nonempty 1000 1000
  refine ⟨?_, _, twice, composes _ twice⟩
  rw [same]
  exact admitted.2 (by decide)

end Cadence.Operator
