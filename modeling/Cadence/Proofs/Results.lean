/-
  Results of computations without effects, judged by what they may be.

  `Yields Q E r`: the result is a value with `Q` or a failure with `E`. `Safe` is the case in which
  every failure is a fault of the program that is run, and never a defect.
-/
import Cadence.Failure

namespace Cadence

variable {α β : Type}

theorem bind_eq_ok {ε : Type} {x : Except ε α} {f : α → Except ε β} {b : β} :
    (x >>= f) = .ok b ↔ ∃ a, x = .ok a ∧ f a = .ok b := by
  cases x with
  | ok a => exact ⟨fun h => ⟨a, rfl, h⟩, by rintro ⟨_, ⟨⟩, h⟩; exact h⟩
  | error e => exact ⟨nofun, by rintro ⟨_, ⟨⟩, _⟩⟩

/-- A result is a value with `Q`, or a failure with `E`. -/
inductive Yields (Q : α → Prop) (E : Failure → Prop) : Except Failure α → Prop
  | ok {a : α} (h : Q a) : Yields Q E (.ok a)
  | error {e : Failure} (h : E e) : Yields Q E (.error e)

namespace Yields

variable {r : Except Failure α} {Q : α → Prop} {E : Failure → Prop}

theorem of_ok {a : α} (h : Yields Q E r) (eq : r = .ok a) : Q a := by
  subst eq
  cases h with | ok h => exact h

theorem of_error {e : Failure} (h : Yields Q E r) (eq : r = .error e) : E e := by
  subst eq
  cases h with | error h => exact h

theorem mono {R : α → Prop} (h : Yields Q E r) (sub : ∀ a, r = .ok a → Q a → R a) :
    Yields R E r := by
  cases h with
  | ok h => exact .ok (sub _ rfl h)
  | error h => exact .error h

/-- A computation bound to another fails where either does. -/
theorem bind {f : α → Except Failure β} {R : β → Prop} (h : Yields Q E r)
    (next : ∀ a, r = .ok a → Q a → Yields R E (f a)) : Yields R E (r >>= f) := by
  cases h with
  | ok h => exact next _ rfl h
  | error h => exact .error h

theorem unbind {f : α → Except Failure β} {R : β → Prop} (h : Yields R E (r >>= f)) :
    Yields (fun a => Yields R E (f a)) E r := by
  cases r with
  | ok a => exact .ok h
  | error e => exact .error (h.of_error rfl)

theorem map {f : α → β} {R : β → Prop} (h : Yields Q E r)
    (next : ∀ a, r = .ok a → Q a → R (f a)) : Yields R E (r.map f) := by
  cases h with
  | ok h => exact .ok (next _ rfl h)
  | error h => exact .error h

theorem weaken {F : Failure → Prop} (h : Yields Q E r) (sub : ∀ e, E e → F e) : Yields Q F r := by
  cases h with
  | ok h => exact .ok h
  | error h => exact .error (sub _ h)

/-- There is a value where nothing can fail. -/
theorem sure (h : Yields Q E r) (never : ∀ e, ¬ E e) : ∃ a, r = .ok a ∧ Q a := by
  cases h with
  | ok h => exact ⟨_, rfl, h⟩
  | error h => exact absurd h (never _)

end Yields

/-- A failure that the program is to blame for. -/
def Failure.IsFault (e : Failure) : Prop := ∃ f, e = .fault f

/-- A value with `Q`, or a fault. -/
abbrev Safe (r : Except Failure α) (Q : α → Prop) : Prop := Yields Q Failure.IsFault r

theorem safe_fault (f : Fault) {Q : α → Prop} : Safe (.error (.fault f)) Q := .error ⟨f, rfl⟩

end Cadence
