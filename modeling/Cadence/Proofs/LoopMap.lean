/-
  Mapping an array through a loop variable.

  A loop over an array of which the body assigns to the variable, and nothing else, replaces every
  element by the value of an expression, from left to right (`loop_maps`). Each pass reads and
  writes the very array that is walked over, through the reference that the variable is bound to;
  and this array may be an element of another one, which a loop further out refers to.

  `Walked` says where a walk over the array is: which of the items have been replaced, and what the
  variable refers to. As the expression is a function of the element, a pass over one element does
  not depend on what has become of the others.
-/
import Cadence.Proofs.Expressions

namespace Cadence

open Reference

/-! ## The body of the loop -/

section Body

variable {ctx : Context} {x : Name} {v w : Value} {env : Environment} {g : Node}
  {r : Except Failure Value} {fuel level : Nat}

theorem Operator.nameOf_toJson (n : Name) : Operator.nameOf n.toJson = .ok n := by
  rw [Operator.nameOf, Name.ofJson?_toJson]

/-- What a value is replaced by: the value of an expression of it, if that may take its place. -/
def replacement (x : Name) (v : Value) (r : Except Failure Value) : Except Failure Value := do
  let w ← r
  checkAssignable x v w
  return w

/-- Assigning to a name, without a message. -/
theorem Machine.assignName_gives (quiet : ctx.debugLevel < 3) (held : resolve env x = .ok v) :
    (assignName ctx x.toJson w env).Gives
      (replacement x v (.ok w) >>= fun w => (store env x w).map fun env => (w, env)) := by
  unfold assignName
  rw [Operator.nameOf_toJson]
  refine (Act.lift_gives (.ok x)).andThen ?_
  rw [held]
  refine (Act.lift_gives (.ok v)).andThen ?_
  show (Act.lift (checkAssignable x v w) >>= _).Gives ((checkAssignable x v w >>= _) >>= _)
  cases checkAssignable x v w with
  | error e => exact (Act.lift_gives (.error e)).stops
  | ok =>
      refine (Act.lift_gives (.ok ())).andThen ?_
      show (Act.lift (store env x w) >>= _).Gives ((store env x w).map _)
      cases store env x w with
      | error e => exact (Act.lift_gives (.error e)).stops
      | ok env =>
          exact (Act.lift_gives (.ok env)).andThen
            ((Context.debug_gives quiet).andThen (Act.lift_gives (.ok (w, env))))

/-- The statement that assigns an expression to a name. -/
def Node.assignTo (g : Node) (x : Name) : Node := .exprStmt (.assign (.ident x.toJson) g)

/-- The statement stores what the value of its target is replaced by. -/
theorem Context.Determines.assignTo_gives (determines : ctx.Determines x v (level + 2) g r)
    (quiet : ctx.debugLevel < 3) (enough : sizeOf g ≤ fuel) (held : resolve env x = .ok v) :
    (ctx.execute (fuel + 2) level (g.assignTo x) env).Gives
      ((replacement x v r >>= fun w => store env x w).map .next) := by
  have barred {l : Nat} (le : l ≤ level + 2) (deep : ctx.Bars l) : r = .error (.fault .nesting) :=
    determines.barred (deep.deeper le)
  have assigned : (ctx.evaluate (fuel + 1) (level + 1) (.assign (.ident x.toJson) g) env).Gives
      (replacement x v r >>= fun w => (store env x w).map fun env => (w, env)) := by
    refine evaluate_gives (fun deep => by rw [barred (by omega) deep]; rfl) fun _ => ?_
    have found := determines.finds enough held
    cases r with
    | error e => exact Act.Gives.stops found
    | ok w => exact Act.Gives.andThen found (Machine.assignName_gives quiet held)
  have next := assigned.map (k := fun p => Outcome.next p.2)
  refine execute_gives (fun deep => by rw [barred (by omega) deep]; rfl) fun _ => ?_
  generalize replacement x v r = q at next ⊢
  cases q with
  | error e => exact next
  | ok w =>
      show Act.Gives _ ((store env x w).map Outcome.next)
      change Act.Gives _ (((store env x w).map _).map _) at next
      cases stored : store env x w with
      | error e => rw [stored] at next; exact next
      | ok env' => rw [stored] at next; exact next

end Body

/-! ## The walk -/

/-- A name that is bound, and an array at the end of a chain that does not pass through it. Each of
    the indices can be written at. -/
structure Walkable (env : Environment) (x a root : Name) (steps : List (Name × Int))
    (whole : Value) (items : List Value) : Prop where
  declared : ∃ old, env.get? x = some old
  chain : Leads env a root steps
  off : ∀ n ∈ a :: steps.map Prod.fst, n.key ≠ x.key
  bound : env.get? root = some whole
  found : follow whole steps = .ok (.array items.toArray)
  within : ∀ step ∈ steps, step.2 < maxArrayLength

/-- Where a walk is when so many elements have been visited: `now` stands in the place of the items,
    and the variable refers to the element that was visited last. All else is as it was. -/
def Walked (env : Environment) (x a root : Name) (steps : List (Name × Int)) (whole : Value)
    (count : Nat) (now : List Value) (cur : Environment) : Prop :=
  ∃ u mid, (0 < count → u = .ref a ((count : Int) - 1)) ∧ env.set x u = .ok mid ∧
    mid.set root (put (steps.map Prod.snd) (.array now.toArray) whole) = .ok cur

section Walk

variable {env cur : Environment} {x a root : Name} {steps : List (Name × Int)} {whole v : Value}
  {items now ws rest : List Value} {count : Nat}

namespace Walkable

theorem root_ne (h : Walkable env x a root steps whole items) : root.key ≠ x.key :=
  h.off root h.chain.root_mem

theorem plain (h : Walkable env x a root steps whole items) : whole.isRef = false := by
  obtain ⟨whole', bound, plain⟩ := h.chain.end_bound
  rw [h.bound] at bound
  cases bound
  exact plain

/-- What names are bound to once the variable has been bound. -/
theorem get? (h : Walkable env x a root steps whole items) {u : Value} {mid : Environment}
    (set : env.set x u = .ok mid) : mid.get? x = some u ∧ mid.get? root = some whole ∧
      ∀ m, m.key ≠ x.key → mid.get? m = env.get? m := by
  obtain ⟨old, declared⟩ := h.declared
  obtain ⟨_, eq, get⟩ := Environment.set_spec declared u
  rw [set] at eq
  cases eq
  exact ⟨(get x).trans (if_pos rfl), (get root).trans ((if_neg h.root_ne).trans h.bound),
    fun m off => (get m).trans (if_neg off)⟩

/-- A walk starts where nothing has been visited. -/
theorem start (h : Walkable env x a root steps whole items) :
    Walked env x a root steps whole 0 items env := by
  obtain ⟨old, declared⟩ := h.declared
  refine ⟨old, env, nofun, Environment.set_self declared, ?_⟩
  rw [put_follow h.found, Environment.set_self h.bound]

end Walkable

namespace Walked

/-- What names are bound to during a walk. -/
theorem get? (walk : Walkable env x a root steps whole items)
    (h : Walked env x a root steps whole count now cur) :
    ∃ u, (0 < count → u = .ref a ((count : Int) - 1)) ∧ cur.get? x = some u ∧
      cur.get? root = some (put (steps.map Prod.snd) (.array now.toArray) whole) ∧
      Leads cur a root steps := by
  obtain ⟨u, mid, last, setVar, setRoot⟩ := h
  obtain ⟨boundVar, bound, getMid⟩ := walk.get? setVar
  obtain ⟨_, eq, get⟩ := Environment.set_spec bound
    (put (steps.map Prod.snd) (.array now.toArray) whole)
  rw [setRoot] at eq
  cases eq
  refine ⟨u, last, ?_, (get root).trans (if_pos rfl), ?_⟩
  · rw [get, if_neg (Ne.symm walk.root_ne), boundVar]
  · have chain := walk.chain.bind_off walk.off getMid
    exact chain.rebind bound walk.plain (isRef_put _ rfl walk.plain) get

/-- The variable goes on to the next element. -/
theorem visit (walk : Walkable env x a root steps whole items)
    (h : Walked env x a root steps whole count now cur) :
    ∃ cur', cur.set x (.ref a count) = .ok cur' ∧
      Walked env x a root steps whole (count + 1) now cur' := by
  obtain ⟨old, declared⟩ := walk.declared
  obtain ⟨_, -, boundVar, -⟩ := h.get? walk
  obtain ⟨cur', set, -⟩ := Environment.set_spec boundVar (.ref a count)
  obtain ⟨u, mid, -, setVar, setRoot⟩ := h
  obtain ⟨boundMid, bound, -⟩ := walk.get? setVar
  -- the variable might as well have been bound before the array was written
  obtain ⟨mid', setVar', setRoot'⟩ :=
    Environment.set_comm walk.root_ne bound boundMid setRoot set
  rw [Environment.set_set declared setVar] at setVar'
  exact ⟨cur', set, _, mid', fun _ => by simp, setVar', setRoot'⟩

/-- The path of the variable, through the array to the element that it refers to. -/
theorem leads (walk : Walkable env x a root steps whole items)
    (h : Walked env x a root steps whole (ws.length + 1) (ws ++ v :: rest) cur) :
    Leads cur x root (steps ++ [(a, (ws.length : Int))]) ∧
      follow (put (steps.map Prod.snd) (.array (ws ++ v :: rest).toArray) whole)
        (steps ++ [(a, (ws.length : Int))]) = .ok v := by
  obtain ⟨u, last, boundVar, -, chain⟩ := h.get? walk
  have eq : u = .ref a ws.length := by
    rw [last (Nat.succ_pos _)]
    simp
  rw [eq] at boundVar
  refine ⟨.ref boundVar chain, ?_⟩
  rw [follow_append, follow_put walk.found]
  refine bind_eq_ok.2 ⟨_, rfl, bind_eq_ok.2 ⟨v, elementAt_eq_ok.2 ⟨_, rfl, ?_, ?_⟩, rfl⟩⟩
  · exact Int.natCast_nonneg _
  · simp

theorem read (walk : Walkable env x a root steps whole items)
    (h : Walked env x a root steps whole (ws.length + 1) (ws ++ v :: rest) cur) :
    resolve cur x = .ok v := by
  obtain ⟨leads, found⟩ := h.leads walk
  obtain ⟨_, -, -, bound, -⟩ := h.get? walk
  rw [leads.resolve_eq bound, found]

/-- Writing to the variable replaces the element. -/
theorem write (walk : Walkable env x a root steps whole items)
    (h : Walked env x a root steps whole (ws.length + 1) (ws ++ v :: rest) cur)
    (room : ws.length < maxArrayLength) (w : Value) :
    ∃ cur', store cur x w = .ok cur' ∧
      Walked env x a root steps whole (ws.length + 1) (ws ++ w :: rest) cur' := by
  obtain ⟨leads, found⟩ := h.leads walk
  obtain ⟨_, -, -, bound, -⟩ := h.get? walk
  have within : ∀ step ∈ steps ++ [(a, (ws.length : Int))], step.2 < maxArrayLength := by
    refine List.forall_mem_append.2 ⟨walk.within, List.forall_mem_singleton.2 ?_⟩
    exact Int.ofNat_lt.2 room
  have replaced : put [(ws.length : Int)] w (.array (ws ++ v :: rest).toArray) =
      .array (ws ++ w :: rest).toArray := by
    simp only [put, Int.toNat_natCast, List.modify_toArray]
    rw [List.modify_eq_take_cons_drop (by simp)]
    simp
  obtain ⟨u, mid, last, setVar, setRoot⟩ := h
  obtain ⟨-, boundMid, -⟩ := walk.get? setVar
  obtain ⟨cur', set, -⟩ := Environment.set_spec boundMid
    (put (steps.map Prod.snd) (.array (ws ++ w :: rest).toArray) whole)
  have stores : store cur x w = .ok cur' := calc
    store cur x w = cur.set root (put (steps.map Prod.snd ++ [(ws.length : Int)]) w
        (put (steps.map Prod.snd) (.array (ws ++ v :: rest).toArray) whole)) := by
      rw [leads.store_eq bound found within w, List.map_append]
      rfl
    _ = cur.set root (put (steps.map Prod.snd) (.array (ws ++ w :: rest).toArray) whole) := by
      rw [put_append (follow_put walk.found _), replaced, put_put]
    _ = .ok cur' := (Environment.set_set boundMid setRoot _).trans set
  exact ⟨cur', stores, u, mid, last, setVar, set⟩

end Walked

/-! ## The passes -/

/-- The body of a loop replaces what the variable stands for. -/
def Machine.Replaces (m : Machine) (body : Node) (x : Name) (f : Value → Except Failure Value) :
    Prop :=
  ∀ env v, resolve env x = .ok v →
    (m.execute body env).Gives ((f v >>= fun w => store env x w).map .next)

variable {m : Machine} {body : Node} {f : Value → Except Failure Value}

/-- A pass replaces the element that it visits, if it can be replaced. -/
theorem Walked.pass (walk : Walkable env x a root steps whole items)
    (replaces : m.Replaces body x f)
    (h : Walked env x a root steps whole ws.length (ws ++ v :: rest) cur)
    (room : ws.length < maxArrayLength) {w : Value} (image : f v = .ok w) :
    ∃ cur', Walked env x a root steps whole (ws.length + 1) (ws ++ w :: rest) cur' ∧
      ∀ left q, (m.elementLoop x a body left ((ws.length + 1 : Nat) : Int) cur').Gives q →
        (m.elementLoop x a body (left + 1) ws.length cur).Gives q := by
  obtain ⟨visited, set, h⟩ := h.visit walk
  obtain ⟨cur', stored, h'⟩ := h.write walk room w
  refine ⟨cur', h', fun left q goesOn => ?_⟩
  have done := replaces visited v (h.read walk)
  rw [image, show (Except.ok w >>= fun w => store visited x w) = .ok cur' from stored] at done
  unfold Machine.elementLoop
  rw [set]
  exact (Act.lift_gives (.ok visited)).andThen (done.andThen goesOn)

/-- A pass over an element that cannot be replaced is the last. -/
theorem Walked.pass_fails (walk : Walkable env x a root steps whole items)
    (replaces : m.Replaces body x f)
    (h : Walked env x a root steps whole ws.length (ws ++ v :: rest) cur) {e : Failure}
    (fails : f v = .error e) (left : Nat) :
    (m.elementLoop x a body (left + 1) ws.length cur).Gives (.error e) := by
  obtain ⟨visited, set, h⟩ := h.visit walk
  have failed := replaces visited v (h.read walk)
  rw [fails] at failed
  unfold Machine.elementLoop
  rw [set]
  exact (Act.lift_gives (.ok visited)).andThen (Act.Gives.stops failed)

/-- Passes over elements that can be replaced replace them all. -/
theorem Walked.run {vs us : List Value} (walk : Walkable env x a root steps whole items)
    (replaces : m.Replaces body x f)
    (h : Walked env x a root steps whole ws.length (ws ++ (vs ++ rest)) cur)
    (room : ws.length + vs.length ≤ maxArrayLength) (image : vs.map f = us.map .ok) :
    ∃ cur', Walked env x a root steps whole (ws.length + vs.length) (ws ++ (us ++ rest)) cur' ∧
      ∀ q, (m.elementLoop x a body rest.length ((ws.length + vs.length : Nat) : Int) cur').Gives
          q → (m.elementLoop x a body (vs ++ rest).length ws.length cur).Gives q := by
  induction vs generalizing ws us cur with
  | nil =>
      rw [List.map_nil, eq_comm, List.map_eq_nil_iff] at image
      rw [image]
      exact ⟨cur, h, fun q goesOn => goesOn⟩
  | cons v vs ih =>
      cases us with
      | nil => cases image
      | cons w us =>
          rw [List.map_cons, List.map_cons, List.cons.injEq] at image
          rw [List.length_cons] at room
          obtain ⟨next, h', first⟩ := h.pass walk replaces (by omega) image.1
          have moved : (ws ++ [w]).length = ws.length + 1 := List.length_append
          rw [List.append_cons, ← moved] at h'
          rw [← moved] at first
          obtain ⟨cur', h'', others⟩ := ih h' (by omega) image.2
          have count : (ws ++ [w]).length + vs.length = ws.length + (v :: vs).length := by
            rw [moved, List.length_cons]
            omega
          rw [count, ← List.append_cons] at h''
          rw [count] at others
          exact ⟨cur', h'', fun q goesOn => first _ q (others q goesOn)⟩

/-- The passes over an array, up to where items begin that may not be replaceable. -/
theorem Walkable.run {vs us : List Value} (walk : Walkable env x a root steps whole (vs ++ rest))
    (replaces : m.Replaces body x f) (room : (vs ++ rest).length ≤ maxArrayLength)
    (image : vs.map f = us.map .ok) :
    ∃ cur, Walked env x a root steps whole us.length (us ++ rest) cur ∧
      ∀ q, (m.elementLoop x a body rest.length us.length cur).Gives q →
        (m.elementLoop x a body (vs ++ rest).length 0 env).Gives q := by
  have start : Walked env x a root steps whole ([] : List Value).length ([] ++ (vs ++ rest)) env :=
    walk.start
  have count : ([] : List Value).length + vs.length = us.length := by
    simpa using congrArg List.length image
  rw [List.length_append] at room
  have run := start.run walk replaces (by rw [List.length_nil]; omega) image
  rw [count] at run
  exact run

/-- If every item can be replaced, the passes replace them all. -/
theorem Walkable.passes_done (walk : Walkable env x a root steps whole items)
    (replaces : m.Replaces body x f) (room : items.length ≤ maxArrayLength)
    (image : items.map f = ws.map .ok) :
    ∃ cur, (m.elementLoop x a body items.length 0 env).Gives (.ok (.next cur)) ∧
      Walked env x a root steps whole ws.length ws cur := by
  rw [← List.append_nil items] at walk room
  obtain ⟨cur, h, passes⟩ := walk.run replaces room image
  rw [List.append_nil] at h passes
  exact ⟨cur, passes _ (Act.lift_gives (.ok (Outcome.next cur))), h⟩

/-- The first item that cannot be replaced ends the passes. -/
theorem Walkable.passes_failed (walk : Walkable env x a root steps whole items)
    (replaces : m.Replaces body x f) (room : items.length ≤ maxArrayLength) {e : Failure}
    {later : List (Except Failure Value)} (image : items.map f = ws.map .ok ++ .error e :: later) :
    (m.elementLoop x a body items.length 0 env).Gives (.error e) := by
  obtain ⟨before, behind, rfl, replaced, image⟩ := List.map_eq_append_iff.1 image
  obtain ⟨v, after, rfl, fails, -⟩ := List.map_eq_cons_iff.1 image
  obtain ⟨cur, h, passes⟩ := walk.run replaces room replaced
  exact passes _ (h.pass_fails walk replaces fails after.length)

/-- What a walk over the whole array has come to. -/
theorem Walked.done {old : Value} (walk : Walkable env x a root steps whole items)
    (declared : env.get? x = some old) (visited : 0 < count)
    (h : Walked env x a root steps whole count now cur) :
    resolve cur a = .ok (.array now.toArray) ∧ cur.get? x = some (.ref a ((count : Int) - 1)) ∧
      ∃ mid, Environment.Rebinds x old (.ref a ((count : Int) - 1)) env mid ∧
        Environment.Rebinds root whole (put (steps.map Prod.snd) (.array now.toArray) whole) mid
          cur := by
  obtain ⟨u, last, boundVar, bound, chain⟩ := h.get? walk
  rw [last visited] at boundVar
  obtain ⟨_, mid, last, setVar, setRoot⟩ := h
  rw [last visited] at setVar
  refine ⟨?_, boundVar, mid, Environment.set_rebinds declared setVar,
    Environment.set_rebinds (walk.get? setVar).2.1 setRoot⟩
  rw [chain.resolve_eq bound, follow_put walk.found]

/-- A loop that assigns an expression to its variable. -/
def Node.mapLoop (x a : Name) (g : Node) : Node := .loopStmt x.toJson a.toJson (g.assignTo x)

/-- A loop over an array that has elements does what its passes do. -/
theorem Context.mapLoop_gives {ctx : Context} {fuel level : Nat} {g : Node}
    {elements : Array Value} {q : Except Failure Outcome} (apart : x.toJson.alike a.toJson = false)
    (held : resolve env a = .ok (.array elements)) (nonempty : 0 < elements.size)
    (barred : ctx.Bars level → q = .error (.fault .nesting))
    (passes : ((ctx.machine fuel (level + 1)).elementLoop x a (g.assignTo x) elements.size 0
      env).Gives q) :
    (ctx.execute (fuel + 1) level (.mapLoop x a g) env).Gives q := by
  refine execute_gives barred fun _ => ?_
  show (Machine.executeLoop _ x.toJson a.toJson _ env).Gives q
  have items : (Machine.itemsOf env a .loop).Gives (.ok elements) := by
    unfold Machine.itemsOf
    rw [held]
    exact (Act.lift_gives (.ok _)).andThen (Act.lift_gives (.ok elements))
  have occupied : elements.isEmpty = false := by
    simp only [Array.isEmpty, decide_eq_false_iff_not]
    omega
  unfold Machine.executeLoop Act.require
  rw [if_pos apart, Operator.nameOf_toJson, Operator.nameOf_toJson]
  refine Act.Gives.andThen (Act.lift_gives (.ok ()))
    ((Act.lift_gives (.ok a)).andThen (items.andThen ?_))
  rw [occupied]
  exact (Act.lift_gives (.ok x)).andThen passes

end Walk

/-- An array that a name stands for can be walked over, if arrays have not grown too long. -/
theorem Walkable.of_short {env : Environment} {x a root : Name} {steps : List (Name × Int)}
    {items : Array Value} {old : Value} (declared : env.get? x = some old)
    (chain : Leads env a root steps) (off : ∀ n ∈ a :: steps.map Prod.fst, n.key ≠ x.key)
    (held : resolve env a = .ok (.array items)) (short : env.Short) :
    ∃ whole, Walkable env x a root steps whole items.toList ∧
      items.toList.length ≤ maxArrayLength := by
  obtain ⟨whole, bound, -⟩ := chain.end_bound
  rw [chain.resolve_eq bound] at held
  have shortWhole := short.get? bound
  refine ⟨whole, ⟨⟨old, declared⟩, chain, off, bound, held, within_of_follow held shortWhole⟩, ?_⟩
  cases short_of_follow held shortWhole with
  | array size _ => exact size
  | other h => exact absurd rfl (h items)

/-- Let `x` be a name and let `a`, another one, stand for an array of one or more items, by a chain
    that does not pass through `x`. The loop over `a` that assigns an expression of `x` to `x`
    replaces the items from left to right. The item `v` is replaced by `f v`: the value of the
    expression where `x` is bound to `v`, if it may be assigned to `x` then. If `f` gives a value
    for every item, these values are the items in the end, `x` refers to the last of them, and
    besides `x` only what the end of the chain of `a` is bound to has changed, and that only in the
    place of the items. Otherwise the loop fails as `f` does for the first item that it gives no
    value for. -/
theorem loop_maps {ctx : Context} {env : Environment} {x a root : Name} {old : Value}
    {steps : List (Name × Int)} {items : Array Value} {g : Node} (quiet : ctx.debugLevel < 3)
    (apart : x.toJson.alike a.toJson = false) (declared : env.get? x = some old)
    (chain : Leads env a root steps) (off : ∀ n ∈ a :: steps.map Prod.fst, n.key ≠ x.key)
    (held : resolve env a = .ok (.array items)) (nonempty : 0 < items.size) (short : env.Short)
    (plain : ∀ v ∈ items, v.isRef = false) (consults : g.Consults x) (level : Nat) :
    ∃ f : Value → Except Failure Value,
      (∀ v ∈ items, ∃ bound r, env.set x v = .ok bound ∧ f v = replacement x v r ∧
        ∀ fuel, sizeOf g ≤ fuel → (ctx.evaluate fuel (level + 3) g bound).Finds bound r) ∧
      ∀ fuel, sizeOf g + 3 ≤ fuel →
        (∀ ws : List Value, items.toList.map f = ws.map .ok → ∃ env' mid whole,
          (ctx.execute fuel level (.mapLoop x a g) env).Gives (.ok (.next env')) ∧
          resolve env' a = .ok (.array ws.toArray) ∧
          env'.get? x = some (.ref a ((items.size : Int) - 1)) ∧
          Environment.Rebinds x old (.ref a ((items.size : Int) - 1)) env mid ∧
          Environment.Rebinds root whole (put (steps.map Prod.snd) (.array ws.toArray) whole) mid
            env') ∧
        ∀ (ws : List Value) e later, items.toList.map f = ws.map .ok ++ .error e :: later →
          (ctx.execute fuel level (.mapLoop x a g) env).Gives (.error e) := by
  obtain ⟨whole, walk, room⟩ := Walkable.of_short declared chain off held short
  obtain ⟨r, determines⟩ := Classical.axiomOfChoice fun v => consults.determined ctx v (level + 3)
  -- too deep a level is what the expression fails for too, and already for the first item
  have barred (deep : ctx.Bars level) : ∃ results,
      items.toList.map (fun v => replacement x v (r v)) = .error (.fault .nesting) :: results := by
    obtain ⟨first, others, eq⟩ := List.exists_cons_of_length_pos (l := items.toList) nonempty
    rw [eq, List.map_cons, (determines first).barred (deep.deeper (by omega))]
    exact ⟨_, rfl⟩
  refine ⟨fun v => replacement x v (r v), fun v inside => ?_, fun fuel enough => ?_⟩
  · obtain ⟨bound, set, get⟩ := Environment.set_spec declared v
    have stands : resolve bound x = .ok v :=
      resolveFrom_plain ((get x).trans (if_pos rfl)) (plain v inside) []
    exact ⟨bound, r v, set, rfl, fun fuel enough => (determines v).finds enough stands⟩
  obtain ⟨fuel, rfl⟩ : ∃ k, fuel = k + 3 := ⟨fuel - 3, by omega⟩
  have replaces : (ctx.machine (fuel + 2) (level + 1)).Replaces (g.assignTo x) x
      fun v => replacement x v (r v) :=
    fun env v stands => (determines v).assignTo_gives quiet (by omega) stands
  refine ⟨fun ws maps => ?_, fun ws e later maps => ?_⟩
  · obtain ⟨env', passes, walked⟩ := walk.passes_done replaces room maps
    have count : ws.length = items.size := by simpa using (congrArg List.length maps).symm
    rw [count] at walked
    obtain ⟨stands, refers, mid, var, array⟩ := walked.done walk declared nonempty
    refine ⟨env', mid, whole, ?_, stands, refers, var, array⟩
    refine Context.mapLoop_gives apart held nonempty (fun deep => ?_) passes
    obtain ⟨results, failed⟩ := barred deep
    rw [failed] at maps
    cases ws <;> cases maps
  · have passes := walk.passes_failed replaces room maps
    refine Context.mapLoop_gives apart held nonempty (fun deep => ?_) passes
    obtain ⟨results, failed⟩ := barred deep
    rw [failed] at maps
    cases ws <;> cases maps
    rfl

/-- The second row of a grid, by way of a reference to it, with a global variable. -/
theorem loop_maps_row :
    let row (a b : Int) : Value := .array #[.int a, .int b]
    let env : Environment := {
      locals := [(.text "grid", .array #[row 1 2, row 3 4]), (.text "row", .ref (.text "grid") 1)]
      globals := [(.text "x", .int 0)] }
    let ctx : Context := { debugLevel := 0, maxDepth := 10, nesting := some 9, functions := [] }
    let g := Node.binaryOp (.text "*") (.ident (.text "x"))
      (.literal (.plain (.int 10)) (.text "int"))
    ∃ env', (ctx.execute (sizeOf g + 3) 0 (.mapLoop (.text "x") (.text "row") g) env).Gives
        (.ok (.next env')) ∧
      resolve env' (.text "row") = .ok (row 30 40) ∧
      env'.get? (.text "x") = some (.ref (.text "row") 1) := by
  intro row env ctx g
  have chain : Leads env (.text "row") (.text "grid") [(.text "grid", 1)] :=
    .ref rfl (.root rfl rfl)
  have two {a b : Value} (ha : a.Short) (hb : b.Short) : (Value.array #[a, b]).Short :=
    .array (show 2 ≤ maxArrayLength by decide) (by simp [ha, hb])
  have each (a b : Int) : (row a b).Short := two (.other nofun) (.other nofun)
  have short : env.Short := by
    intro b member
    simp only [env, List.cons_append, List.nil_append, List.mem_cons, List.not_mem_nil,
      or_false] at member
    rcases member with rfl | rfl | rfl
    · exact two (each 1 2) (each 3 4)
    all_goals exact .other nofun
  have consults : g.Consults (.text "x") := by
    refine .of_parts rfl (List.forall_mem_nil _) (List.forall_mem_cons.2 ⟨?_, ?_⟩)
    · refine .of_parts rfl (List.forall_mem_singleton.2 ?_) (List.forall_mem_nil _)
      intro name named
      cases named
      rfl
    · exact List.forall_mem_singleton.2
        (.of_parts rfl (List.forall_mem_nil _) (List.forall_mem_nil _))
  have plain : ∀ v ∈ #[Value.int 3, .int 4], v.isRef = false := by simp [Value.isRef]
  have quiet : ctx.debugLevel < 3 := by decide
  obtain ⟨f, value, maps⟩ := loop_maps quiet rfl rfl chain (by decide) (chain.resolve_eq rfl)
    (by decide) short plain consults 0
  have entered {α : Type} {level : Nat} {r : Except Failure α} (h : level < 9) :
      ctx.Bars level → r = .error (.fault .nesting) := by
    rintro ⟨_, ⟨⟩, deep⟩
    omega
  have times (v : Int) (inside : Value.int v ∈ #[Value.int 3, .int 4]) :
      f (.int v) = .ok (.int (Integer.wrap (v * 10))) := by
    obtain ⟨bound, r, set, eq, finds⟩ := value (.int v) inside
    cases set
    let bound : Environment := { env with globals := [(.text "x", .int v)] }
    have stands : resolve bound (.text "x") = .ok (.int v) := resolveFrom_plain rfl rfl []
    have left : (ctx.evaluate (sizeOf g + 1) 4 (.ident (.text "x")) bound).Finds bound
        (.ok (.int v)) := by
      refine Context.evaluate_gives (entered (by omega)) fun _ => ?_
      refine (Act.lift_gives (.ok (Name.text "x"))).andThen ?_
      rw [stands]
      exact Act.lift_finds _
    have right : (ctx.evaluate (sizeOf g + 1) 4 (.literal (.plain (.int 10)) (.text "int"))
        bound).Finds bound (.ok (.int 10)) :=
      Context.evaluate_gives (entered (by omega)) fun _ => Act.lift_finds _
    have product : (ctx.evaluate (sizeOf g + 2) 3 g bound).Finds bound
        (.ok (.int (Integer.wrap (v * 10)))) :=
      Context.evaluate_gives (entered (by omega)) fun _ =>
        Act.Gives.andThen left (Act.Gives.andThen right (Act.lift_finds (.ok _)))
    have same := (finds _ (Nat.le_add_right _ 2)).unique product
    cases r with
    | error e => cases same
    | ok w =>
        cases same
        exact eq
  have image : [Value.int 3, .int 4].map f = [.int 30, .int 40].map .ok := by
    have three : f (.int 3) = .ok (.int 30) := times 3 (by simp)
    have four : f (.int 4) = .ok (.int 40) := times 4 (by simp)
    rw [List.map_cons, List.map_cons, three, four]
    rfl
  obtain ⟨env', mid, whole, gives, stands, refers, -⟩ := (maps _ (Nat.le_refl _)).1 _ image
  exact ⟨env', gives, stands, refers⟩

end Cadence
