/-
  Assigning to an element of an array.

  The value is computed first, then the index, and either may change the array or make it longer.
  The element is set in the array as it is then, wherever the chain of references from its name
  leads. Behind the end of the array, the gap is filled with the default for the value, which is of
  the same kind and as deep (`Value.Genuine.defaultLike_yields`).

  `Slotted` says what the array is like after that, `ElementSet` what the environment is, and
  `assign_index` how the assignment ends. That the value and the index have been computed in
  evaluations of their own, with less fuel and another history, makes no difference
  (`Context.evaluate_again`).
-/
import Cadence.Proofs.LoopMap

namespace Cadence

open Reference

/-! ## Evaluating again -/

namespace Coupling

/-- The studios differ in their histories at most. -/
def retold : Coupling := ⟨fun s t => ∃ history, t = { s with history }, True⟩

theorem retold_even : retold.Even where
  track := by rintro s _ ⟨history, rfl⟩; rfl
  random := by rintro s _ ⟨history, rfl⟩; rfl
  noted := by rintro e s _ ⟨history, rfl⟩; exact ⟨_, rfl⟩
  depth := by rintro d s _ ⟨history, rfl⟩; exact ⟨_, rfl⟩
  printed := by rintro line s _ ⟨history, rfl⟩; exact ⟨_, rfl⟩
  drawn := by rintro random s _ ⟨history, rfl⟩; exact ⟨_, rfl⟩
  mixed := by rintro track f s _ ⟨history, rfl⟩; exact ⟨_, rfl⟩

theorem retold_kept (ctx : Context) : retold.Kept Invariant.anything ctx ctx where
  functions _ _ := rfl
  maxDepth := rfl
  nesting := rfl
  even := retold_even
  debugged := by
    rintro level text s _ - ⟨history, rfl⟩
    refine ⟨history, ?_⟩
    unfold Studio.debug
    split
    · dsimp only
      split <;> rfl
    · rfl
  written differ := absurd rfl differ

end Coupling

/-- What an expression has come to does not depend on the history, and more fuel does not change
    it. -/
theorem Context.evaluate_again {ctx : Context} {fuel fuel' level : Nat} {node : Node}
    {env : Environment} {s t : Studio} {r : Value × Environment}
    (h : ctx.evaluate fuel level node env s = (.done r, t)) (le : fuel ≤ fuel')
    (history : Ghost (List Event)) :
    ∃ history', ctx.evaluate fuel' level node env { s with history } =
      (.done r, { t with history := history' }) := by
  have agrees := Coupling.Kept.machine_agrees (Invariant.anything_kept ctx)
    (Coupling.retold_kept ctx) trivial fuel le level s.depth () node
  have ends := (agrees.1 trivial).agrees env trivial s { s with history } trivial
    ⟨⟨history, rfl⟩, rfl, rfl⟩
  change Coupling.retold.Ends _ (ctx.evaluate fuel level node env s)
    (ctx.evaluate fuel' level node env { s with history }) at ends
  rw [h] at ends
  generalize ctx.evaluate fuel' level node env { s with history } = q at ends ⊢
  cases ends with
  | done r abreast =>
      obtain ⟨history', rfl⟩ := abreast.studios
      exact ⟨history', rfl⟩

/-! ## Defaults -/

namespace Value

/-- How many arrays are nested in one another along the first items. -/
def depth : Value → Nat
  | .array ⟨[]⟩ => 1
  | .array ⟨v :: _⟩ => v.depth + 1
  | _ => 0

theorem default_yields {E : Failure → Prop} {t : Tag} (scalar : t ≠ .array) :
    Yields (fun d => d.tag = .ok t ∧ d.depth = 0) E (default t) := by
  cases t with
  | array => exact absurd rfl scalar
  | _ => exact .ok ⟨rfl, by simp [depth]⟩

/-- The default for a value is of the same kind, and as deep. -/
theorem Genuine.defaultLike_yields {room : Room} {v : Value} (h : v.Genuine) :
    Yields (fun d => d.tag = v.tag ∧ d.depth = v.depth) (room.Exceeded v.height)
      (v.defaultLike room) := by
  induction h generalizing room with
  | @array items nonempty _ ih =>
      obtain ⟨items⟩ := items
      cases items with
      | nil => exact absurd nonempty (Nat.lt_irrefl 0)
      | cons v vs =>
          rw [defaultLike, height]
          refine (enter_yields room _).bind fun inside _ within => ?_
          have first : Yields _ (inside.Exceeded v.height) (v.defaultLike inside) :=
            ih v (by simp)
          have le : v.height ≤ heightItems (v :: vs) := by
            rw [heightItems]
            exact Nat.le_max_left _ _
          refine (first.weaken fun e lacks => within e (lacks.mono le)).bind fun d _ same => ?_
          refine .ok ⟨rfl, ?_⟩
          rw [depth, depth, same.2]
  | _ =>
      rw [defaultLike]
      · exact default_yields (by simp)
      all_goals simp

end Value

/-! ## Setting an element -/

namespace Reference

/-- The items with one slot set. Between their end and the slot stand defaults of the same kind and
    depth as the value. -/
structure Slotted (room : Value.Room) (items : Array Value) (slot : Nat) (v : Value)
    (new : Array Value) : Prop where
  size : new.size = max items.size (slot + 1)
  there : new[slot]? = some v
  others : ∀ j < items.size, j ≠ slot → new[j]? = items[j]?
  gap : ∀ j, items.size ≤ j → j < slot → ∃ fill, v.defaultLike room = .ok fill ∧
    fill.tag = v.tag ∧ fill.depth = v.depth ∧ new[j]? = some fill

/-- Only behind the end of the items is a default called for. -/
theorem setSlot_yields {v : Value} (genuine : v.Genuine) (room : Value.Room)
    (items : Array Value) (slot : Nat) :
    Yields (Slotted room items slot v) (fun e => items.size < slot ∧ room.Exceeded v.height e)
      (setSlot room items slot v) := by
  unfold setSlot
  rcases Nat.lt_trichotomy slot items.size with inside | last | outside
  · rw [if_pos inside]
    refine .ok ⟨?_, ?_, fun j _ ne => ?_, fun j le lt => ?_⟩
    · rw [Array.size_setIfInBounds]
      omega
    · rw [Array.getElem?_setIfInBounds, if_pos rfl, if_pos inside]
    · rw [Array.getElem?_setIfInBounds, if_neg (Ne.symm ne)]
    · omega
  · rw [if_neg (by omega), if_pos last]
    refine .ok ⟨?_, ?_, fun j lt _ => ?_, fun j le lt => ?_⟩
    · rw [Array.size_push]
      omega
    · rw [Array.getElem?_push, if_pos last]
    · rw [Array.getElem?_push, if_neg (by omega)]
    · omega
  · rw [if_neg (by omega), if_neg (by omega)]
    have like : Yields _ (room.Exceeded v.height) (v.defaultLike room) :=
      genuine.defaultLike_yields
    refine (like.weaken fun e lacks => ⟨outside, lacks⟩).bind fun fill eq same => ?_
    have size : (items ++ Array.replicate (slot - items.size) fill).size = slot := by
      rw [Array.size_append, Array.size_replicate]
      omega
    refine .ok ⟨?_, ?_, fun j lt _ => ?_, fun j le lt => ⟨fill, eq, same.1, same.2, ?_⟩⟩
    · rw [Array.size_push, size]
      omega
    · rw [Array.getElem?_push, if_pos size.symm]
    · rw [Array.getElem?_push, if_neg (by omega), Array.getElem?_append_left lt]
    · rw [Array.getElem?_push, if_neg (by omega), Array.getElem?_append_right le,
        Array.getElem?_replicate, if_pos (by omega)]

/-- An index that can be written at. -/
theorem replaceElement_yields {v : Value} {k : Int} (genuine : v.Genuine) (nonneg : 0 ≤ k)
    (within : k < maxArrayLength) (room : Value.Room) (items : Array Value) (name : Name) :
    Yields (fun updated => ∃ new, updated = .array new ∧ Slotted room items k.toNat v new)
      (fun e => items.size < k ∧ room.Exceeded v.height e)
      (replaceElement room items name k v) := by
  rw [replaceElement, if_neg (by omega), if_neg (by omega)]
  have behind (e : Failure) (h : items.size < k.toNat ∧ room.Exceeded v.height e) :
      items.size < k ∧ room.Exceeded v.height e := ⟨by omega, h.2⟩
  have set := (setSlot_yields genuine room items k.toNat).weaken behind
  exact set.map fun new _ slotted => ⟨new, rfl, slotted⟩

/-- An index that cannot. -/
theorem replaceElement_fails {k : Int} (outside : k < 0 ∨ maxArrayLength ≤ k) (room : Value.Room)
    (items : Array Value) (name : Name) (v : Value) :
    ∃ f : Fault, replaceElement room items name k v = .error (.fault f) ∧
      f.kind = .indexOutOfBounds := by
  unfold replaceElement
  by_cases negative : k < 0
  · exact ⟨_, if_pos negative, rfl⟩
  · rw [if_neg negative]
    exact ⟨_, if_pos (by omega), rfl⟩

variable {env env' : Environment} {n x b : Name} {v w held : Value} {k : Int}

/-- A name that is bound to a reference stands for the element of the array. -/
theorem resolve_of_ref (bound : env.get? x = some (.ref b k)) (found : resolve env b = .ok w) :
    resolve env x = elementAt w b k := by
  obtain ⟨root, steps, leads⟩ := Leads.of_resolveFrom found
  obtain ⟨whole, boundRoot, -⟩ := leads.end_bound
  rw [leads.resolve_eq boundRoot] at found
  rw [(Leads.ref bound leads).resolve_eq boundRoot, follow_append, found]
  show (elementAt w b k >>= fun y => .ok y) = _
  cases elementAt w b k <;> rfl

/-- Writing to a name that has a value rebinds the end of its chain. What was bound to a reference
    is bound to it still. -/
theorem store_found (short : env.Short) (found : resolve env n = .ok held)
    (plain : v.isRef = false) :
    ∃ root steps old new env', Leads env n root steps ∧ store env n v = .ok env' ∧
      resolve env' n = .ok v ∧ Environment.Rebinds root old new env env' ∧
      ∀ x b i, env.get? x = some (.ref b i) → env'.get? x = some (.ref b i) := by
  obtain ⟨root, steps, leads⟩ := Leads.of_resolveFrom found
  obtain ⟨whole, bound, plainEnd⟩ := leads.end_bound
  rw [leads.resolve_eq bound] at found
  have stores := leads.store_eq bound found (within_of_follow found (short.get? bound)) v
  have plainNew := isRef_put (steps.map Prod.snd) plain plainEnd
  obtain ⟨env', set, get⟩ := Environment.set_spec bound (put (steps.map Prod.snd) v whole)
  refine ⟨root, steps, whole, _, env', leads, stores.trans set, ?_,
    Environment.set_rebinds bound set, fun x b i refers => ?_⟩
  · rw [(leads.rebind bound plainEnd plainNew get).resolve_eq ((get root).trans (if_pos rfl)),
      follow_put found]
  · have elsewhere : x.key ≠ root.key := by
      intro same
      rw [Environment.get?_congr same, bound] at refers
      cases refers
      cases plainEnd
    rw [get, if_neg elsewhere, refers]

/-- What has become of an environment when an element of an array has been set: the array is as it
    should be, names that refer to the element stand for the value, and nothing has changed but
    what the end of the chain of the array is bound to. -/
structure ElementSet (room : Value.Room) (env : Environment) (a : Name) (items : Array Value)
    (k : Int) (v : Value) (env' : Environment) : Prop where
  array : ∃ new, resolve env' a = .ok (.array new) ∧ Slotted room items k.toNat v new
  aliases : ∀ x b, env.get? x = some (.ref b k) → b.key = a.key → resolve env' x = .ok v
  frame : ∃ root steps old whole, Leads env a root steps ∧
    Environment.Rebinds root old whole env env'

theorem ElementSet.of_store {room : Value.Room} {a : Name} {items new : Array Value}
    (short : env.Short) (held : resolve env a = .ok (.array items)) (nonneg : 0 ≤ k)
    (slotted : Slotted room items k.toNat v new) :
    ∃ env', store env a (.array new) = .ok env' ∧ ElementSet room env a items k v env' := by
  obtain ⟨root, steps, old, whole, env', leads, stored, found, rebinds, refs⟩ :=
    store_found (v := .array new) short held rfl
  refine ⟨env', stored, ⟨new, found, slotted⟩, fun x b refers same => ?_,
    root, steps, old, whole, leads, rebinds⟩
  rw [resolve_of_ref (refs x b k refers) (resolve_congr same found), elementAt_eq_ok]
  exact ⟨new, rfl, nonneg, slotted.there⟩

end Reference

/-! ## The assignment -/

section

variable {α β : Type} {ctx : Context} {env env₁ env₂ : Environment} {s s₁ s₂ t : Studio} {a : Name}
  {e i node : Node} {v : Value} {k : Int} {fuel level : Nat}

theorem Act.bind_done {x : Act α} {f : α → Act β} {r : α} (h : x s = (.done r, t)) :
    (x >>= f) s = f r t := by
  show Act.bind x f s = _
  unfold Act.bind
  rw [h]

theorem Machine.itemsOf_done {items : Array Value} (held : resolve env a = .ok (.array items))
    (use : Fault.ArrayUse) (s : Studio) : itemsOf env a use s = (.done items, s) := by
  unfold itemsOf
  rw [held]
  rfl

theorem Act.bind_failed {x : Act α} {f : α → Act β} {e : Failure} (h : x s = (.failed e, t)) :
    (x >>= f) s = (.failed e, t) := by
  show Act.bind x f s = _
  unfold Act.bind
  rw [h]

/-- A message about a value is written, if it is asked for and the value can be written out. -/
theorem Context.debugText_ends (ctx : Context) (detail : Int) (v : Value) (f : String → String)
    (s : Studio) :
    (∃ t, ctx.debug detail (do return f (← ctx.text v)) s = (.done (), t)) ∨
      ∃ e, detail ≤ ctx.debugLevel ∧ v.text ctx.room = .error e ∧
        ctx.debug detail (do return f (← ctx.text v)) s = (.failed e, s) := by
  unfold debug text
  by_cases asked : detail ≤ ctx.debugLevel
  · rw [if_pos asked]
    cases written : v.text ctx.room with
    | ok text => exact .inl ⟨_, rfl⟩
    | error e => exact .inr ⟨e, asked, rfl, rfl⟩
  · rw [if_neg asked]
    exact .inl ⟨s, rfl⟩

/-- The expression that assigns to an element of an array. -/
def Node.assignIndex (a : Name) (i e : Node) : Node := .assign (.index a.toJson [i]) e

/-- The failure where a value is nested too deep: for the default that fills a gap behind the items,
    or for a message. -/
def Context.TooDeep (ctx : Context) (items : Array Value) (k : Int) (v : Value) (e : Failure) :
    Prop :=
  items.size < k ∧ Value.Room.Exceeded ctx.nesting v.height e ∨
    3 ≤ ctx.debugLevel ∧ ctx.room.Exceeded v.height e

theorem Context.TooDeep.eq_nesting {items : Array Value} {f : Failure}
    (h : ctx.TooDeep items k v f) : f = .fault .nesting := by
  rcases h with ⟨-, eq, -⟩ | ⟨-, eq, -⟩ <;> exact eq

namespace Machine

variable {m : Machine} {items items₁ : Array Value} (ctx : Context)
  (value : m.evaluate e env s = (.done (v, env₁), s₁))
  (array : resolve env₁ a = .ok (.array items₁))
  (index : m.evaluate i env₁ s₁ = (.done (.int k, env₂), s₂))
  (held : resolve env₂ a = .ok (.array items))

include value array index held

/-- The value is computed before the index, and both before the array is looked up in which the
    element is replaced. The rest is to store that array, and to write a message. -/
theorem assignIndex_reaches : ∃ rest : Value → Act (Value × Environment),
    evaluateNode ctx m (.assignIndex a i e) env s =
      (Act.lift (replaceElement ctx.nesting items a k v) >>= rest) s₂ ∧
    ∀ updated env', store env₂ a updated = .ok env' →
      (∃ t, rest updated s₂ = (.done (v, env'), t)) ∨
        ∃ f, 3 ≤ ctx.debugLevel ∧ v.text ctx.room = .error f ∧
          rest updated s₂ = (.failed f, s₂) := by
  have subscript : subscript m a.toJson [i] env₁ s₁ = (.done (k, env₂), s₂) :=
    (Act.bind_done index).trans rfl
  -- what the rest is shows at the end of these steps
  apply Exists.intro
  constructor
  · refine (Act.bind_done value).trans ?_
    show assignIndex ctx m a.toJson [i] v env₁ s₁ = _
    unfold assignIndex
    rw [Operator.nameOf_toJson]
    refine (Act.bind_done (itemsOf_done array .assign s₁)).trans ?_
    refine (Act.bind_done subscript).trans ?_
    exact Act.bind_done (itemsOf_done held .assign s₂)
  · intro updated env' stored
    rw [stored]
    rcases ctx.debugText_ends 3 v (fun text => s!"assign {a.shown}[{k}] = {text}") s₂ with
      ⟨t, done⟩ | ⟨f, asked, unwritten, failed⟩
    · exact .inl ⟨t, (Act.bind_done rfl).trans (Act.bind_done done)⟩
    · exact .inr ⟨f, asked, unwritten, (Act.bind_done rfl).trans (Act.bind_failed failed)⟩

theorem assignIndex_outside (outside : k < 0 ∨ maxArrayLength ≤ k) :
    ∃ f : Fault, evaluateNode ctx m (.assignIndex a i e) env s = (.failed (.fault f), s₂) ∧
      f.kind = .indexOutOfBounds := by
  obtain ⟨rest, reached, -⟩ := assignIndex_reaches ctx value array index held
  obtain ⟨f, replaced, kind⟩ := replaceElement_fails outside ctx.nesting items a v
  rw [replaced] at reached
  exact ⟨f, reached, kind⟩

theorem assignIndex_inside (nonneg : 0 ≤ k) (within : k < maxArrayLength) (genuine : v.Genuine)
    (short : env₂.Short) :
    (∃ env' t, evaluateNode ctx m (.assignIndex a i e) env s = (.done (v, env'), t) ∧
      ElementSet ctx.nesting env₂ a items k v env') ∨
    ∃ f, evaluateNode ctx m (.assignIndex a i e) env s = (.failed f, s₂) ∧
      ctx.TooDeep items k v f := by
  obtain ⟨rest, reached, ends⟩ := assignIndex_reaches ctx value array index held
  have yields := replaceElement_yields genuine nonneg within ctx.nesting items a
  cases replaced : replaceElement ctx.nesting items a k v with
  | error f =>
      rw [replaced] at reached
      exact .inr ⟨f, reached, .inl (yields.of_error replaced)⟩
  | ok updated =>
      rw [replaced] at reached
      obtain ⟨new, rfl, slotted⟩ := yields.of_ok replaced
      obtain ⟨env', stored, set⟩ := ElementSet.of_store short held nonneg slotted
      rcases ends _ _ stored with ⟨t, done⟩ | ⟨f, asked, unwritten, failed⟩
      · exact .inl ⟨env', t, reached.trans done, set⟩
      · refine .inr ⟨f, reached.trans failed, .inr ⟨asked, ?_⟩⟩
        exact genuine.text_yields.of_error unwritten

end Machine

namespace Context

theorem not_bars_of_done {r : Value × Environment}
    (h : ctx.evaluate fuel level node env s = (.done r, t)) : ¬ ctx.Bars level := by
  intro deep
  cases fuel with
  | zero => cases h
  | succ fuel =>
      unfold evaluate at h
      rw [enter_of_bars deep] at h
      cases h

/-- At a level that can be entered, an expression ends as its rule does. -/
theorem evaluate_ending {x : Ending (Value × Environment)} (entered : ¬ ctx.Bars level)
    (h : Machine.evaluateNode ctx (ctx.machine fuel (level + 1)) node env
      (s.noted (.reached env)) = (x, t)) :
    ∃ t', ctx.evaluate (fuel + 1) level node env s = (x, t') := by
  have eq : ctx.evaluate (fuel + 1) level node env s =
      (Machine.evaluateNode ctx (ctx.machine fuel (level + 1)) node env >>= fun r => do
        Act.note (.yielded r.1 r.2)
        return r) (s.noted (.reached env)) := by
    unfold evaluate
    rw [enter_of_not_bars entered]
    rfl
  rw [eq]
  show ∃ t', Act.bind _ _ _ = _
  unfold Act.bind
  rw [h]
  cases x <;> exact ⟨_, rfl⟩

end Context

end

/-- Let the value of `e` be `v`, and let that of `i` after it be `k`. Let `a` stand for an array
    before the index is computed and for the array of the items after it, directly or by a chain of
    references. The assignment to the element fails for its index if and only if that is negative or
    too large. Otherwise it yields the value, in an environment in which the element has been set;
    unless there is a limit to nesting and the value is too deep for it. -/
theorem assign_index {ctx : Context} {env env₁ env₂ : Environment} {s s₁ s₂ : Studio} {a : Name}
    {e i : Node} {v : Value} {k : Int} {items items₁ : Array Value} {fuel fuel' n level : Nat}
    (value : ctx.evaluate fuel (level + 1) e env s = (.done (v, env₁), s₁))
    (array : resolve env₁ a = .ok (.array items₁))
    (index : ctx.evaluate fuel' (level + 1) i env₁ s₁ = (.done (.int k, env₂), s₂))
    (held : resolve env₂ a = .ok (.array items)) (genuine : v.Genuine) (short : env₂.Short)
    (more : fuel < n) (more' : fuel' < n) :
    ((∃ f t, ctx.evaluate n level (.assignIndex a i e) env s = (.failed (.fault f), t) ∧
        f.kind = .indexOutOfBounds) ↔ k < 0 ∨ maxArrayLength ≤ k) ∧
      (0 ≤ k → k < maxArrayLength →
        (∃ env' t, ctx.evaluate n level (.assignIndex a i e) env s = (.done (v, env'), t) ∧
          ElementSet ctx.nesting env₂ a items k v env') ∨
        ∃ f t, ctx.evaluate n level (.assignIndex a i e) env s = (.failed f, t) ∧
          ctx.TooDeep items k v f) := by
  obtain ⟨n, rfl⟩ : ∃ m, n = m + 1 := ⟨n - 1, by omega⟩
  have entered : ¬ ctx.Bars level := fun deep =>
    Context.not_bars_of_done value (deep.deeper (Nat.le_succ level))
  obtain ⟨history₁, value⟩ := Context.evaluate_again value (Nat.le_of_lt_succ more)
    (s.noted (.reached env)).history
  obtain ⟨history₂, index⟩ := Context.evaluate_again index (Nat.le_of_lt_succ more') history₁
  let m := ctx.machine n (level + 1)
  by_cases outside : k < 0 ∨ maxArrayLength ≤ k
  · obtain ⟨f, fails, kind⟩ :=
      Machine.assignIndex_outside (m := m) ctx value array index held outside
    obtain ⟨t, failed⟩ := Context.evaluate_ending entered fails
    exact ⟨iff_of_true ⟨f, t, failed, kind⟩ outside, fun _ _ => by omega⟩
  · rcases Machine.assignIndex_inside (m := m) ctx value array index held (by omega) (by omega)
      genuine short with ⟨env', t, ends, set⟩ | ⟨f, ends, tooDeep⟩
    · obtain ⟨t, done⟩ := Context.evaluate_ending entered ends
      refine ⟨iff_of_false ?_ outside, fun _ _ => .inl ⟨env', t, done, set⟩⟩
      rintro ⟨f, t', failed, -⟩
      rw [done] at failed
      cases failed
    · obtain ⟨t, failed⟩ := Context.evaluate_ending entered ends
      refine ⟨iff_of_false ?_ outside, fun _ _ => .inr ⟨f, t, failed, tooDeep⟩⟩
      rintro ⟨f', t', failed', kind⟩
      rw [failed, tooDeep.eq_nesting] at failed'
      cases failed'
      cases kind

/-- The second row of a grid, by way of a reference to it, behind its end. The variable refers to
    the element before there is one. -/
theorem assign_index_row :
    let env : Environment := {
      locals := [(.text "grid", .array #[.array #[.int 1, .int 2], .array #[.int 3, .int 4]]),
        (.text "row", .ref (.text "grid") 1)]
      globals := [(.text "x", .ref (.text "row") 3)] }
    let ctx : Context := { debugLevel := 3, maxDepth := 10, nesting := some 9, functions := [] }
    let number (n : Int) : Node := .literal (.plain (.int n)) (.text "int")
    ∃ env' t, ctx.evaluate 2 0 (.assignIndex (.text "row") (number 3) (number 7)) env
        (Session.new {}).studio = (.done (.int 7, env'), t) ∧
      resolve env' (.text "row") = .ok (.array #[.int 3, .int 4, .int 0, .int 7]) ∧
      resolve env' (.text "x") = .ok (.int 7) := by
  intro env ctx number
  have literal (n : Int) (s : Studio) :
      ∃ t, ctx.evaluate 1 1 (number n) env s = (.done (.int n, env), t) := ⟨_, rfl⟩
  obtain ⟨s₁, value⟩ := literal 7 (Session.new {}).studio
  obtain ⟨s₂, index⟩ := literal 3 s₁
  have chain : Leads env (.text "row") (.text "grid") [(.text "grid", 1)] :=
    .ref rfl (.root rfl rfl)
  have held : resolve env (.text "row") = .ok (.array #[.int 3, .int 4]) := chain.resolve_eq rfl
  have two {a b : Value} (ha : a.Short) (hb : b.Short) : (Value.array #[a, b]).Short :=
    .array (show 2 ≤ maxArrayLength by decide) (by simp [ha, hb])
  have one (n : Int) : (Value.int n).Short := .other nofun
  have short : env.Short := by
    intro b member
    simp only [env, List.cons_append, List.nil_append, List.mem_cons, List.not_mem_nil,
      or_false] at member
    rcases member with rfl | rfl | rfl
    · exact two (two (one 1) (one 2)) (two (one 3) (one 4))
    all_goals exact .other nofun
  obtain ⟨-, sets⟩ := assign_index value held index held (.int 7) short (Nat.lt_succ_self 1)
    (Nat.lt_succ_self 1)
  rcases sets (by decide) (by decide) with ⟨env', t, done, set⟩ | ⟨f, t, -, tooDeep⟩
  · obtain ⟨new, found, slotted⟩ := set.array
    refine ⟨env', t, done, ?_, set.aliases (.text "x") (.text "row") rfl rfl⟩
    have items : new = #[.int 3, .int 4, .int 0, .int 7] := by
      obtain ⟨fill, ⟨⟩, -, -, gap⟩ := slotted.gap 2 (by decide) (by decide)
      refine Array.ext_getElem? fun j => ?_
      match j with
      | 0 => exact slotted.others 0 (by decide) (by decide)
      | 1 => exact slotted.others 1 (by decide) (by decide)
      | 2 => exact gap
      | 3 => exact slotted.there
      | j + 4 => exact Array.getElem?_eq_none (by rw [slotted.size]; exact Nat.le_add_left 4 j)
    rw [found, items]
  · rcases tooDeep with ⟨-, -, _, -, lt⟩ | ⟨-, -, _, -, lt⟩ <;> exact absurd lt (Nat.not_lt_zero _)

end Cadence
