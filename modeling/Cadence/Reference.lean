/-
  Reading and writing through references. A loop variable is bound to a reference, an element of
  an array held by another name, which may be a loop variable in turn. `resolve` follows such a
  chain to a value; `store` writes at its end. A chain that comes back to one of its names is a
  fault, so both end: every step uses up a name of the environment.
-/
import Cadence.Environment

namespace Cadence.Reference

/-- The element of an array value at an index. -/
def elementAt (array : Value) (name : Name) (index : Int) : Except Failure Value :=
  match array with
  | .array items =>
      match if index < 0 then none else items[index.toNat]? with
      | some v => .ok v
      | none => .error (.fault (.outOfBounds index name items.size))
  | _ => .error (.fault (.notAnArray name .read))

/-- How many names of the environment a chain can still pass through. -/
def unseen (env : Environment) (seen : List Name.Key) : Nat :=
  (env.keys.filter fun k => k ∉ seen).length

theorem unseen_cons_lt {env : Environment} {seen : List Name.Key} {name : Name} {v : Value}
    (h : env.get? name = some v) (fresh : name.key ∉ seen) :
    unseen env (name.key :: seen) < unseen env seen := by
  have mem := Environment.mem_keys_of_get? h
  rw [unseen, unseen]
  generalize env.keys = keys at mem
  generalize name.key = key at mem fresh ⊢
  have le : ∀ l : List Name.Key, (l.filter fun k => k ∉ key :: seen).length
      ≤ (l.filter fun k => k ∉ seen).length := by
    intro l
    rw [← List.countP_eq_length_filter, ← List.countP_eq_length_filter]
    apply List.countP_mono_left
    intro n _ hn
    simp at hn ⊢
    exact hn.2
  induction keys with
  | nil => simp at mem
  | cons n rest ih =>
      rcases List.mem_cons.1 mem with rfl | mem
      · rw [List.filter_cons_of_neg (by simp), List.filter_cons_of_pos (by simpa using fresh)]
        exact Nat.lt_succ_of_le (le rest)
      · by_cases hn : n ∈ key :: seen
        · rw [List.filter_cons_of_neg (by rw [decide_eq_true_eq]; exact fun h => h hn)]
          refine Nat.lt_of_lt_of_le (ih mem) ?_
          exact (List.sublist_cons_self n rest |>.filter _).length_le
        · have hs : n ∉ seen := fun m => hn (List.mem_cons_of_mem _ m)
          rw [List.filter_cons_of_pos (by simpa using hn),
            List.filter_cons_of_pos (by simpa using hs)]
          exact Nat.succ_lt_succ (ih mem)

/-- The value of a name, looked up through references; `seen` holds the names of the chain so
    far. -/
def resolveFrom (env : Environment) (name : Name) (seen : List Name.Key) :
    Except Failure Value :=
  match h : env.get? name with
  | none => Environment.undeclared name
  | some (.ref array index) =>
      if fresh : name.key ∈ seen then .error (.fault (.circular name))
      else
        have := unseen_cons_lt h fresh
        match resolveFrom env array (name.key :: seen) with
        | .ok v => elementAt v array index
        | .error e => .error e
  | some v => .ok v
termination_by unseen env seen

theorem resolveFrom_plain {env : Environment} {n : Name} {v : Value}
    (bound : env.get? n = some v) (plain : v.isRef = false) (seen : List Name.Key) :
    resolveFrom env n seen = .ok v := by
  fun_cases resolveFrom env n seen with
  | case1 h => rw [bound] at h; cases h
  | case2 array i h => rw [bound] at h; cases h; cases plain
  | case3 array i h => rw [bound] at h; cases h; cases plain
  | case4 array i h => rw [bound] at h; cases h; cases plain
  | case5 held notRef h => rw [bound] at h; cases h; rfl

theorem resolveFrom_ref {env : Environment} {n array : Name} {i : Int} {seen : List Name.Key}
    (bound : env.get? n = some (.ref array i)) (fresh : n.key ∉ seen) :
    resolveFrom env n seen =
      resolveFrom env array (n.key :: seen) >>= fun held => elementAt held array i := by
  rw [resolveFrom]
  split
  · next h => rw [bound] at h; cases h
  · next h =>
      rw [bound] at h
      cases h
      rw [dif_neg fresh]
      cases resolveFrom env array (n.key :: seen) <;> rfl
  · next h notRef => rw [bound] at notRef; cases notRef; exact (h _ _ rfl).elim

theorem resolveFrom_missing {env : Environment} {n : Name} (missing : env.get? n = none)
    (seen : List Name.Key) : resolveFrom env n seen = Environment.undeclared n := by
  rw [resolveFrom]
  split
  · rfl
  · next h => rw [missing] at h; cases h
  · next h => rw [missing] at h; cases h

theorem resolveFrom_again {env : Environment} {n array : Name} {i : Int} {seen : List Name.Key}
    (bound : env.get? n = some (.ref array i)) (again : n.key ∈ seen) :
    resolveFrom env n seen = .error (.fault (.circular n)) := by
  rw [resolveFrom]
  split
  · next h => rw [bound] at h; cases h
  · rw [dif_pos again]
  · next h notRef => rw [bound] at notRef; cases notRef; exact (h _ _ rfl).elim

/-- The current value of a name. -/
def resolve (env : Environment) (name : Name) : Except Failure Value := resolveFrom env name []

/-- Items with one slot set. A slot at or behind the end makes the array longer, and what stands
    in between is the default for the value. -/
def setSlot (room : Value.Room) (items : Array Value) (slot : Nat) (value : Value) :
    Except Failure (Array Value) :=
  if slot < items.size then .ok (items.setIfInBounds slot value)
  else if slot = items.size then .ok (items.push value)
  else do
    let fill ← value.defaultLike room
    return (items ++ Array.replicate (slot - items.size) fill).push value

/-- The array with one slot set. Writing behind the end grows the array, with defaults of the
    kind of the value before it. The kind of the element is not checked. -/
def replaceElement (room : Value.Room) (items : Array Value) (name : Name) (index : Int)
    (value : Value) : Except Failure Value :=
  if index < 0 then .error (.fault (.negativeIndex index name))
  else if (maxArrayLength : Int) ≤ index then .error (.fault (.indexTooLarge index))
  else (setSlot room items index.toNat value).map .array

/-- The array with an element replaced that it has already. -/
def replaceHeld (array : Value) (name : Name) (index : Int) (value : Value) :
    Except Failure Value := do
  let _ ← elementAt array name index
  match array with
  | .array items => replaceElement none items name index value
  | _ => .error (.fault (.notAnArray name .read))

/-- Writes at the end of the chain of a name: a reference passes the write on to the element it
    stands for. -/
def storeFrom (env : Environment) (name : Name) (value : Value) (seen : List Name.Key) :
    Except Failure Environment :=
  match h : env.get? name with
  | none => Environment.undeclared name
  | some (.ref array index) =>
      if fresh : name.key ∈ seen then .error (.fault (.circular name))
      else
        have := unseen_cons_lt h fresh
        match resolve env array >>= fun held => replaceHeld held array index value with
        | .ok updated => storeFrom env array updated (name.key :: seen)
        | .error e => .error e
  | some _ => env.set name value
termination_by unseen env seen

theorem storeFrom_plain {env : Environment} {n : Name} {x : Value}
    (bound : env.get? n = some x) (plain : x.isRef = false) (v : Value) (seen : List Name.Key) :
    storeFrom env n v seen = env.set n v := by
  rw [storeFrom]
  split
  · next h => rw [bound] at h; cases h
  · next h => rw [bound] at h; cases h; cases plain
  · rfl

theorem storeFrom_ref {env : Environment} {n array : Name} {i : Int} {seen : List Name.Key}
    (bound : env.get? n = some (.ref array i)) (fresh : n.key ∉ seen) (v : Value) :
    storeFrom env n v seen =
      (resolve env array >>= fun held => replaceHeld held array i v) >>= fun updated =>
        storeFrom env array updated (n.key :: seen) := by
  rw [storeFrom]
  split
  · next h => rw [bound] at h; cases h
  · next h =>
      rw [bound] at h
      cases h
      rw [dif_neg fresh]
      cases resolve env array >>= fun held => replaceHeld held array i v <;> rfl
  · next h notRef => rw [bound] at notRef; cases notRef; exact (h _ _ rfl).elim

theorem storeFrom_missing {env : Environment} {n : Name} (missing : env.get? n = none) (v : Value)
    (seen : List Name.Key) : storeFrom env n v seen = Environment.undeclared n := by
  rw [storeFrom]
  split
  · rfl
  · next h => rw [missing] at h; cases h
  · next h => rw [missing] at h; cases h

theorem storeFrom_again {env : Environment} {n array : Name} {i : Int} {seen : List Name.Key}
    (bound : env.get? n = some (.ref array i)) (again : n.key ∈ seen) (v : Value) :
    storeFrom env n v seen = .error (.fault (.circular n)) := by
  rw [storeFrom]
  split
  · next h => rw [bound] at h; cases h
  · rw [dif_pos again]
  · next h notRef => rw [bound] at notRef; cases notRef; exact (h _ _ rfl).elim

/-- Rebinds a name, or writes through to the element that it refers to. -/
def store (env : Environment) (name : Name) (value : Value) : Except Failure Environment :=
  storeFrom env name value []

/-- A value may replace another of the same kind; two arrays are compared by the kind of their
    first elements. -/
def checkAssignable (name : Name) (current value : Value) : Except Failure Unit := do
  let held ← current.tag
  let given ← value.tag
  let (held, given) ← match current, value with
    | .array xs, .array ys => do
        let held ← Value.elementTag xs
        let given ← Value.elementTag ys
        pure (held, given)
    | _, _ => pure (held, given)
  if held = given then return () else throw (.fault (.unassignable name held given))

end Cadence.Reference
