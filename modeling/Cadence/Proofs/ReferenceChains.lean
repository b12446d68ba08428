/-
  Where chains of references end.

  From a name that is bound to a reference, a chain goes on to the array that the reference names. In
  every environment it comes back to a name that it has passed (`Revisits`), to a name that is in
  neither frame (`Misses`), or to one that is bound to a value (`Leads`), and `resolve` tells which
  of the three it is (`chains_end`).

  `store` resolves the array of a reference before it goes on to it, and only a chain that ends can
  be resolved. So it never comes back to a name itself: its own check for that can be left out
  (`storeUnchecked`), or answered in any other way (`storeOr`).
-/
import Cadence.Proofs.DeclaredNames

namespace Cadence.Reference

variable {env : Environment} {n m : Name} {v : Value}

/-! ## Elements on the way -/

/-- What can be wrong with an element that a reference stands for. -/
def OfElement (e : Failure) : Prop :=
  ∃ f : Fault, e = .fault f ∧ (f.kind = .notAnArray ∨ f.kind = .indexOutOfBounds)

theorem elementAt_yields (whole : Value) (name : Name) (i : Int) :
    Yields (fun _ => True) OfElement (elementAt whole name i) := by
  unfold elementAt
  split
  · split
    · exact .ok trivial
    · exact .error ⟨_, rfl, .inr rfl⟩
  · exact .error ⟨_, rfl, .inl rfl⟩

theorem follow_yields (whole : Value) (steps : List (Name × Int)) :
    Yields (fun _ => True) OfElement (follow whole steps) := by
  induction steps generalizing whole with
  | nil => exact .ok trivial
  | cons step rest ih => exact (elementAt_yields whole step.1 step.2).bind fun x _ _ => ih x

/-! ## Chains that come back -/

/-- The references from a name pass through the names of a list, in this order, and lead to `m`. -/
inductive Passes (env : Environment) : Name → List Name → Name → Prop
  | here (n : Name) : Passes env n [] n
  | ref {n array m : Name} {i : Int} {path : List Name}
      (bound : env.get? n = some (.ref array i)) (rest : Passes env array path m) :
      Passes env n (n :: path) m

/-- The first name that the chain from `n` comes back to is `m`. -/
def Revisits (env : Environment) (n m : Name) : Prop :=
  ∃ path, Passes env n path m ∧ (path.map Name.key).Nodup ∧ m.key ∈ path.map Name.key

/-- Every name that is passed is bound to a reference, in all its spellings. -/
theorem Passes.bound {path : List Name} (h : Passes env n path m) {k : Name}
    (passed : k.key ∈ path.map Name.key) : ∃ array i, env.get? k = some (.ref array i) := by
  induction h with
  | here => cases passed
  | @ref n array m i path bound rest ih =>
      rcases List.mem_cons.1 passed with same | later
      · exact ⟨array, i, (Environment.get?_congr same env).trans bound⟩
      · exact ih later

namespace Revisits

/-- A chain that has passed `seen` before is followed to the first name that it comes back to. -/
theorem resolveFrom_eq {path : List Name} (h : Passes env n path m)
    (distinct : (path.map Name.key).Nodup) {seen : List Name.Key}
    (fresh : ∀ k ∈ path.map Name.key, k ∉ seen) {array : Name} {i : Int}
    (bound : env.get? m = some (.ref array i)) (again : m.key ∈ path.map Name.key ++ seen) :
    resolveFrom env n seen = .error (.fault (.circular m)) := by
  induction h generalizing seen with
  | here => exact resolveFrom_again bound again
  | @ref n next m j path linked rest ih =>
      obtain ⟨first, distinct⟩ := List.nodup_cons.1 distinct
      obtain ⟨freshFirst, fresh⟩ := List.forall_mem_cons.1 fresh
      rw [resolveFrom_ref linked freshFirst, ih distinct ?_ bound ?_]
      · rfl
      · intro k passed member
        rcases List.mem_cons.1 member with rfl | member
        · exact first passed
        · exact fresh k passed member
      · exact List.perm_middle.mem_iff.2 again

theorem of_resolveFrom {seen : List Name.Key}
    (h : resolveFrom env n seen = .error (.fault (.circular m))) :
    ∃ path, Passes env n path m ∧ (path.map Name.key).Nodup ∧
      (∀ k ∈ path.map Name.key, k ∉ seen) ∧ m.key ∈ path.map Name.key ++ seen := by
  fun_induction resolveFrom env n seen with
  | case1 => cases h
  | case2 n seen array i bound again =>
      cases h
      exact ⟨[], .here m, List.nodup_nil, fun _ => List.not_mem_nil.elim, again⟩
  | case3 n seen array i bound fresh _ held found ih =>
      obtain ⟨f, eq, kind⟩ := (elementAt_yields held array i).of_error h
      cases eq
      rcases kind with kind | kind <;> cases kind
  | case4 n seen array i bound fresh _ e failed ih =>
      cases h
      obtain ⟨path, passes, distinct, apart, again⟩ := ih failed
      have first : n.key ∉ path.map Name.key := fun passed => apart _ passed List.mem_cons_self
      refine ⟨n :: path, .ref bound passes, List.nodup_cons.2 ⟨first, distinct⟩, ?_, ?_⟩
      · refine List.forall_mem_cons.2 ⟨fresh, fun k passed member => ?_⟩
        exact apart k passed (List.mem_cons_of_mem _ member)
      · exact List.perm_middle.mem_iff.1 again
  | case5 => cases h

/-- A chain that comes back is reported in just this way. -/
theorem resolve_iff : resolve env n = .error (.fault (.circular m)) ↔ Revisits env n m := by
  constructor
  · intro h
    obtain ⟨path, passes, distinct, -, again⟩ := of_resolveFrom h
    rw [List.append_nil] at again
    exact ⟨path, passes, distinct, again⟩
  · rintro ⟨path, passes, distinct, again⟩
    obtain ⟨array, i, bound⟩ := passes.bound again
    refine resolveFrom_eq passes distinct (fun _ _ => List.not_mem_nil) bound ?_
    rw [List.append_nil]
    exact again

end Revisits

-- a cycle that is entered from outside, at the name that is reported
example : Revisits
    { locals := [(.text "x", .ref (.text "y") 0), (.text "y", .ref (.text "z") 0)]
      globals := [(.text "z", .ref (.text "y") 1)] } (.text "x") (.text "y") :=
  ⟨[.text "x", .text "y", .text "z"], .ref rfl (.ref rfl (.ref rfl (.here _))), by decide, by decide⟩

/-! ## Chains that end -/

theorem isRef_of_ne (h : ∀ array i, v = .ref array i → False) : v.isRef = false := by
  cases v with
  | ref array i => exact (h array i rfl).elim
  | _ => rfl

/-- A chain that is followed comes back, is lost, or leads to a value. -/
theorem resolveFrom_cases (env : Environment) (n : Name) (seen : List Name.Key) :
    (∃ m, resolveFrom env n seen = .error (.fault (.circular m))) ∨
    (∃ m, resolveFrom env n seen = .error (.fault (.undeclared m))) ∨
    ∃ root steps, Leads env n root steps := by
  fun_induction resolveFrom env n seen with
  | case1 n seen missing => exact .inr (.inl ⟨n, rfl⟩)
  | case2 n seen array i bound again => exact .inl ⟨n, rfl⟩
  | case3 n seen array i bound fresh _ held found ih =>
      obtain ⟨root, steps, leads⟩ := Leads.of_resolveFrom found
      exact .inr (.inr ⟨root, _, .ref bound leads⟩)
  | case4 n seen array i bound fresh _ e failed ih =>
      rw [failed] at ih
      obtain circular | missing | ⟨root, steps, leads⟩ := ih
      · exact .inl circular
      · exact .inr (.inl missing)
      · exact .inr (.inr ⟨root, _, .ref bound leads⟩)
  | case5 n seen held notRef bound =>
      exact .inr (.inr ⟨n, [], .root bound (isRef_of_ne notRef)⟩)

/-! ## Writing without the check -/

/-- How many references lead from a name to the end of its chain, if the chain ends. -/
noncomputable def remoteness (env : Environment) (n : Name) : Nat :=
  open Classical in if h : ∃ d, Distance env n d then h.choose else 0

theorem Distance.remoteness_eq {d : Nat} (h : Distance env n d) : remoteness env n = d := by
  have ends : ∃ d, Distance env n d := ⟨d, h⟩
  rw [remoteness, dif_pos ends]
  exact ends.choose_spec.unique h rfl

/-- An array that can be resolved is nearer to the end than what refers to it. -/
theorem remoteness_lt {array : Name} {i : Int} {held : Value}
    (bound : env.get? n = some (.ref array i)) (found : resolve env array = .ok held) :
    remoteness env array < remoteness env n := by
  obtain ⟨root, steps, leads⟩ := Leads.of_resolveFrom found
  rw [leads.distance.remoteness_eq, (Distance.ref bound leads.distance).remoteness_eq]
  exact Nat.lt_succ_self _

/-- `store` without a check for names that it has passed. -/
def storeUnchecked (env : Environment) (name : Name) (value : Value) :
    Except Failure Environment :=
  match bound : env.get? name with
  | none => Environment.undeclared name
  | some (.ref array index) =>
      match found : resolve env array with
      | .ok held =>
          have := remoteness_lt bound found
          match replaceHeld held array index value with
          | .ok updated => storeUnchecked env array updated
          | .error e => .error e
      | .error e => .error e
  | some _ => env.set name value
termination_by remoteness env name

theorem storeUnchecked_missing (missing : env.get? n = none) (v : Value) :
    storeUnchecked env n v = Environment.undeclared n := by
  rw [storeUnchecked]
  split
  · rfl
  · next h => rw [missing] at h; cases h
  · next h => rw [missing] at h; cases h

theorem storeUnchecked_plain {x : Value} (bound : env.get? n = some x) (plain : x.isRef = false)
    (v : Value) : storeUnchecked env n v = env.set n v := by
  rw [storeUnchecked]
  split
  · next h => rw [bound] at h; cases h
  · next h => rw [bound] at h; cases h; cases plain
  · rfl

theorem storeUnchecked_ref {array : Name} {i : Int} (bound : env.get? n = some (.ref array i))
    (v : Value) :
    storeUnchecked env n v =
      (resolve env array >>= fun held => replaceHeld held array i v) >>= fun updated =>
        storeUnchecked env array updated := by
  rw [storeUnchecked]
  split
  · next h => rw [bound] at h; cases h
  · next h =>
      rw [bound] at h
      cases h
      split
      · next held found =>
          dsimp only
          rw [found]
          show _ = replaceHeld held array i v >>= fun updated => storeUnchecked env array updated
          cases replaceHeld held array i v <;> rfl
      · next e failed => rw [failed]; rfl
  · next h notRef => rw [bound] at notRef; cases notRef; exact (h _ _ rfl).elim

/-- `storeFrom` with any answer where it comes back to a name. -/
def storeOr (again : Name → Except Failure Environment) (env : Environment) (name : Name)
    (value : Value) (seen : List Name.Key) : Except Failure Environment :=
  match h : env.get? name with
  | none => Environment.undeclared name
  | some (.ref array index) =>
      if fresh : name.key ∈ seen then again name
      else
        have := unseen_cons_lt h fresh
        match resolve env array >>= fun held => replaceHeld held array index value with
        | .ok updated => storeOr again env array updated (name.key :: seen)
        | .error e => .error e
  | some _ => env.set name value
termination_by unseen env seen

theorem storeOr_circular (env : Environment) (n : Name) (v : Value) (seen : List Name.Key) :
    storeOr (fun m => .error (.fault (.circular m))) env n v seen = storeFrom env n v seen := by
  fun_induction storeOr _ env n v seen with
  | case1 n v seen missing => exact (storeFrom_missing missing v seen).symm
  | case2 n v seen array i bound again => exact (storeFrom_again bound again v).symm
  | case3 n v seen array i bound fresh _ updated done ih =>
      rw [storeFrom_ref bound fresh, done]
      exact ih
  | case4 n v seen array i bound fresh _ e failed =>
      rw [storeFrom_ref bound fresh, failed]
      rfl
  | case5 n v seen held notRef bound =>
      exact (storeFrom_plain bound (isRef_of_ne notRef) v seen).symm

/-- What the check would answer makes no difference. -/
theorem storeOr_eq_storeUnchecked (again : Name → Except Failure Environment) (env : Environment)
    (n : Name) (v : Value) (seen : List Name.Key) (fresh : n.key ∉ seen)
    (passed : ∀ d, Distance env n d → Passed env d seen) :
    storeOr again env n v seen = storeUnchecked env n v := by
  fun_induction storeOr again env n v seen with
  | case1 n v seen missing => exact (storeUnchecked_missing missing v).symm
  | case2 n v seen array i bound again => exact absurd again fresh
  | case3 n v seen array i bound _ _ updated done ih =>
      rw [storeUnchecked_ref bound, done]
      obtain ⟨held, found, -⟩ := bind_eq_ok.1 done
      obtain ⟨root, steps, leads⟩ := Leads.of_resolveFrom found
      have further := Distance.ref bound leads.distance
      have passed' := further.passed_cons (passed _ further)
      refine ih (leads.distance.fresh passed') fun d distance => ?_
      rw [distance.unique leads.distance rfl]
      exact passed'
  | case4 n v seen array i bound _ _ e failed =>
      rw [storeUnchecked_ref bound, failed]
      rfl
  | case5 n v seen held notRef bound =>
      exact (storeUnchecked_plain bound (isRef_of_ne notRef) v).symm

/-! ## All chains -/

/-- A name is reported as circular just if the chain from the name that is read comes back to it
    before any other, and as undeclared just if the chain leads to it and it is in neither frame.
    Any other chain ends at a name that is bound to a value, which is followed back to an element,
    and then only the elements on the way can be at fault. Writing to a name gives what it would give without a check for names that
    come back, and with any other answer of that check. -/
theorem chains_end (env : Environment) (n : Name) :
    (∀ m, resolve env n = .error (.fault (.circular m)) ↔ Revisits env n m) ∧
    (∀ m, resolve env n = .error (.fault (.undeclared m)) ↔ Misses env n m) ∧
    ((∃ m, Revisits env n m) ∨ (∃ m, Misses env n m) ∨
      ∃ root steps whole, Leads env n root steps ∧ env.get? root = some whole ∧
        whole.isRef = false ∧ resolve env n = follow whole steps ∧
        Yields (fun _ => True) OfElement (resolve env n)) ∧
    ∀ v, store env n v = storeUnchecked env n v ∧
      ∀ again, storeOr again env n v [] = store env n v := by
  have unchecked (again : Name → Except Failure Environment) (v : Value) :
      storeOr again env n v [] = storeUnchecked env n v :=
    storeOr_eq_storeUnchecked again env n v [] List.not_mem_nil fun _ _ _ => List.not_mem_nil.elim
  have stored (v : Value) : store env n v = storeUnchecked env n v :=
    (storeOr_circular env n v []).symm.trans (unchecked _ v)
  refine ⟨fun m => Revisits.resolve_iff, fun m => Misses.resolve_iff, ?_, fun v => ⟨stored v, ?_⟩⟩
  · obtain ⟨m, eq⟩ | ⟨m, eq⟩ | ⟨root, steps, leads⟩ := resolveFrom_cases env n []
    · exact .inl ⟨m, Revisits.resolve_iff.1 eq⟩
    · exact .inr (.inl ⟨m, Misses.resolve_iff.1 eq⟩)
    · obtain ⟨whole, bound, plain⟩ := leads.end_bound
      have followed := leads.resolve_eq bound
      refine .inr (.inr ⟨root, steps, whole, leads, bound, plain, followed, ?_⟩)
      rw [followed]
      exact follow_yields whole steps
  · intro again
    rw [stored, unchecked]

end Cadence.Reference
