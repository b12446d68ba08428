/-
  Names of variables and functions. A name is nearly always a text, but a program tree may carry
  any JSON value in its place. Scalars serve as names too; a list or an object cannot.

  Names are told apart by their keys. Two texts have one key only if they are equal, but numbers
  are taken by value, so `1`, `1.0` and `true` name one thing in three spellings.
-/
import Cadence.Json.Text

namespace Cadence

inductive Name where
  | text (s : String)
  | null
  | bool (b : Bool)
  | int (n : Int)
  | double (x : Float)
  deriving DecidableEq, Inhabited, Repr

namespace Name

def toJson : Name → Json
  | .text s => .text s
  | .null => .null
  | .bool b => .bool b
  | .int n => .int n
  | .double x => .double x

def ofJson? : Json → Option Name
  | .text s => some (.text s)
  | .null => some .null
  | .bool b => some (.bool b)
  | .int n => some (.int n)
  | .double x => some (.double x)
  | .list _ | .object _ => none

@[simp] theorem ofJson?_toJson (n : Name) : ofJson? n.toJson = some n := by
  cases n <;> rfl

/-- What a name is told apart by. -/
inductive Key where
  | text (s : String)
  | null
  | int (n : Int)
  | double (x : Float)
  deriving DecidableEq, Repr

/-- The key of a name. A number that is whole has the key of that integer. -/
def key : Name → Key
  | .text s => .text s
  | .null => .null
  | .bool b => .int (Json.bit b)
  | .int n => .int n
  | .double x =>
      match Double.integer? x with
      | some n => .int n
      | none => .double x

/-- Whether two names are spellings of one. -/
def same : Name → Name → Bool
  | .text s, .text t => s == t
  | a, b => decide (a.key = b.key)

theorem same_iff {a b : Name} : a.same b = true ↔ a.key = b.key := by
  unfold same
  split
  · simp [key]
  · exact decide_eq_true_iff

/-- A text has no other spelling. -/
theorem key_text {n : Name} {s : String} : n.key = (text s).key ↔ n = .text s := by
  cases n with
  | text t => simp [key]
  | double x =>
      unfold key
      dsimp only
      split <;> simp
  | _ => simp [key]

theorem same_text {n : Name} {s : String} : n.same (.text s) = true ↔ n = .text s := by
  rw [same_iff, key_text]

/-- The name as messages show it. -/
def shown (n : Name) : String := n.toJson.shown

/-- The name as descriptions of an environment show it. -/
def described (n : Name) : String := n.toJson.described

instance : Coe String Name := ⟨.text⟩

end Name

end Cadence
