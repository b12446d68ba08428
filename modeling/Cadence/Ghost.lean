/-
  Ghosts: values that are carried along only to be reasoned about.

  A ghost is given by the property that one value alone has. Nothing is left of it when a program
  runs, and a program can add to it but never look at it.
-/
namespace Cadence

/-- A value that is reasoned about and not kept. -/
def Ghost (α : Type) : Type := { p : α → Prop // ∃ a, p = fun b => b = a }

namespace Ghost

variable {α β : Type}

def of (a : α) : Ghost α := ⟨fun b => b = a, a, rfl⟩

instance [Inhabited α] : Inhabited (Ghost α) := ⟨of default⟩

def map (f : α → β) (g : Ghost α) : Ghost β :=
  ⟨fun b => ∃ a, g.1 a ∧ b = f a, by
    obtain ⟨_, a, rfl⟩ := g
    exact ⟨f a, by simp⟩⟩

/-- The value that a ghost stands for. -/
noncomputable def get (g : Ghost α) : α := g.2.choose

theorem of_get (g : Ghost α) : of g.get = g := Subtype.ext g.2.choose_spec.symm

@[simp] theorem get_of (a : α) : (of a).get = a := by
  have h : (fun b => b = a) = fun b => b = (of a).get := (of a).2.choose_spec
  exact ((congrFun h a).mp rfl).symm

@[simp] theorem get_map (f : α → β) (g : Ghost α) : (g.map f).get = f g.get := by
  have h : map f (of g.get) = of (f g.get) := Subtype.ext (by simp [map, of])
  rw [of_get] at h
  rw [h, get_of]

end Ghost

end Cadence
