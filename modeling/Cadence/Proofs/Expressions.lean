/-
  Expressions without effects.

  `Act.Gives` says that a computation ends with a result whatever the studio, and leaves nothing in
  the studio but its history. An expression that calls nothing, assigns nothing and looks up only
  one name is such a computation, and it is determined by what the name stands for
  (`Node.Consults.determined`): its value is the same in all environments that agree on the name,
  and evaluating it leaves them as they are.
-/
import Cadence.Proofs.Termination

namespace Cadence

open Reference

/-! ## Computations without effects -/

namespace Act

variable {α β : Type} {env : Environment}

/-- The computation ends with the result, whatever the studio, and leaves the studio as it is but
    for its history. -/
def Gives (x : Act α) (r : Except Failure α) : Prop :=
  ∀ s, ∃ history, x s = lift r { s with history }

theorem lift_gives (r : Except Failure α) : (lift r).Gives r := fun s => ⟨s.history, rfl⟩

theorem note_gives (e : Event) : (note e).Gives (.ok ()) := fun _ => ⟨_, rfl⟩

namespace Gives

variable {x : Act α} {f : α → Act β} {r : Except Failure α} {q : Except Failure β}

theorem bind {k : α → Except Failure β} (h : x.Gives r)
    (next : ∀ a, r = .ok a → (f a).Gives (k a)) : (x >>= f).Gives (r >>= k) := by
  intro s
  obtain ⟨history, eq⟩ := h s
  show ∃ _, Act.bind x f s = _
  unfold Act.bind
  rw [eq]
  cases r with
  | error e => exact ⟨history, rfl⟩
  | ok a => exact next a rfl { s with history }

/-- A computation goes on where another one has ended. -/
theorem andThen {a : α} (h : x.Gives (.ok a)) (next : (f a).Gives q) : (x >>= f).Gives q :=
  h.bind (k := fun _ => q) fun b eq => by cases eq; exact next

/-- Nothing comes behind a failure. -/
theorem stops {e : Failure} (h : x.Gives (.error e)) : (x >>= f).Gives (.error e) :=
  h.bind (k := fun _ => .error e) nofun

/-- A computation gives one result. -/
theorem unique {r' : Except Failure α} (h : x.Gives r) (h' : x.Gives r') : r = r' := by
  let s := (Session.new {}).studio
  obtain ⟨history, eq⟩ := h s
  obtain ⟨history', eq'⟩ := h' s
  rw [eq] at eq'
  cases r with
  | error e => cases r' <;> cases eq'; rfl
  | ok a => cases r' <;> cases eq'; rfl

theorem map {k : α → β} (h : x.Gives r) : (x >>= fun a => pure (k a)).Gives (r.map k) := by
  cases r with
  | error e => exact h.stops
  | ok a => exact h.andThen (lift_gives (.ok (k a)))

/-- Noting what a computation has come to. -/
theorem noting {g : α → Event} (h : x.Gives r) :
    (x >>= fun a => do note (g a); return a).Gives r := by
  cases r with
  | error e => exact h.stops
  | ok a => exact h.andThen ((note_gives _).andThen (lift_gives (.ok a)))

end Gives

/-- The computation gives the result and leaves the environment as it is. -/
abbrev Finds (x : Act (α × Environment)) (env : Environment) (r : Except Failure α) : Prop :=
  x.Gives (r.map fun a => (a, env))

/-- A value that does not need the studio, in the environment that is there. -/
theorem lift_finds (r : Except Failure α) :
    (do let a ← lift r; return (a, env) : Act (α × Environment)).Finds env r := by
  cases r with
  | error e => exact (lift_gives _).stops
  | ok a => exact (lift_gives (.ok a)).andThen (lift_gives (.ok (a, env)))

theorem fail_finds (e : Failure) : (fail e : Act (α × Environment)).Finds env (.error e) :=
  lift_gives (.error e)

theorem Gives.finds {x : Act α} {f : α → Act (β × Environment)} {r : Except Failure α}
    {k : α → Except Failure β} (h : x.Gives r)
    (next : ∀ a, r = .ok a → (f a).Finds env (k a)) : (x >>= f).Finds env (r >>= k) := by
  cases r with
  | error e => exact h.stops
  | ok a => exact h.andThen (next a rfl)

theorem Finds.bind {x : Act (α × Environment)} {f : α × Environment → Act (β × Environment)}
    {r : Except Failure α} {k : α → Except Failure β} (h : x.Finds env r)
    (next : ∀ a, r = .ok a → (f (a, env)).Finds env (k a)) : (x >>= f).Finds env (r >>= k) := by
  cases r with
  | error e => exact Gives.stops h
  | ok a => exact Gives.andThen h (next a rfl)

end Act

/-! ## Levels of nesting -/

namespace Context

variable {α : Type} {ctx : Context} {level : Nat}

/-- Nodes at the level are nested too deep. -/
def Bars (ctx : Context) (level : Nat) : Prop := ∃ limit, ctx.nesting = some limit ∧ limit ≤ level

theorem Bars.deeper {level' : Nat} (h : ctx.Bars level) (le : level ≤ level') :
    ctx.Bars level' := by
  obtain ⟨limit, eq, barred⟩ := h
  exact ⟨limit, eq, Nat.le_trans barred le⟩

theorem enter_of_bars (h : ctx.Bars level) : ctx.enter level = Act.fault .nesting := by
  obtain ⟨limit, eq, barred⟩ := h
  funext s
  simp only [enter, eq, if_pos barred]
  rfl

theorem enter_of_not_bars (h : ¬ ctx.Bars level) : ctx.enter level = pure () := by
  funext s
  unfold enter
  cases eq : ctx.nesting with
  | none => rfl
  | some limit => exact if_neg fun barred => h ⟨limit, eq, barred⟩

/-- A computation behind the check of the level. -/
theorem enter_gives {x : Act α} {r : Except Failure α}
    (barred : ctx.Bars level → r = .error (.fault .nesting))
    (h : ¬ ctx.Bars level → x.Gives r) : (do ctx.enter level; x).Gives r := by
  by_cases deep : ctx.Bars level
  · rw [enter_of_bars deep, barred deep]
    exact (Act.lift_gives (.error (.fault .nesting))).stops
  · rw [enter_of_not_bars deep]
    exact (Act.lift_gives (.ok ())).andThen (h deep)

variable {fuel : Nat} {node : Node} {env : Environment}

theorem evaluate_gives {r : Except Failure (Value × Environment)}
    (barred : ctx.Bars level → r = .error (.fault .nesting))
    (rule : ¬ ctx.Bars level →
      (Machine.evaluateNode ctx (ctx.machine fuel (level + 1)) node env).Gives r) :
    (ctx.evaluate (fuel + 1) level node env).Gives r := by
  unfold evaluate
  exact enter_gives barred fun entered => (Act.note_gives _).andThen (rule entered).noting

theorem execute_gives {r : Except Failure Outcome}
    (barred : ctx.Bars level → r = .error (.fault .nesting))
    (rule : ¬ ctx.Bars level →
      (Machine.executeNode ctx (ctx.machine fuel (level + 1)) node env).Gives r) :
    (ctx.execute (fuel + 1) level node env).Gives r := by
  unfold execute
  exact enter_gives barred fun entered => (Act.note_gives _).andThen (rule entered).noting

theorem debug_gives {message : Act String} {detail : Int} (quiet : ctx.debugLevel < detail) :
    (ctx.debug detail message).Gives (.ok ()) := by
  unfold debug
  rw [if_neg (by omega)]
  exact Act.lift_gives (.ok ())

end Context

/-! ## Expressions of one variable -/

namespace Node

/-- An assignment or a call. -/
def acts : Node → Bool
  | .assign .. | .call .. => true
  | _ => false

/-- Nothing in the expression is an assignment or a call, and it looks up no name but one. -/
def Consults (x : Name) (n : Node) : Prop :=
  ∀ m, n.Contains m → m.acts = false ∧
    ∀ j ∈ m.lookups, ∀ name, Operator.nameOf j = .ok name → name.key = x.key

variable {x : Name} {n p : Node}

theorem Consults.parts (h : n.Consults x) (hp : p ∈ n.parts) : p.Consults x :=
  fun m inside => h m (inside.of_part hp)

theorem Consults.of_parts (acts : n.acts = false)
    (lookups : ∀ j ∈ n.lookups, ∀ name, Operator.nameOf j = .ok name → name.key = x.key)
    (parts : ∀ p ∈ n.parts, p.Consults x) : n.Consults x :=
  Contains.forall_of_parts ⟨acts, lookups⟩ parts

theorem Consults.lookup {j : Json} {name : Name} (h : n.Consults x) (hj : j ∈ n.lookups)
    (named : Operator.nameOf j = .ok name) : name.key = x.key :=
  (h n .self).2 j hj name named

end Node

/-- Another spelling of a name stands for the same value. -/
theorem Reference.resolve_congr {env : Environment} {n x : Name} {v : Value} (same : n.key = x.key)
    (h : resolve env x = .ok v) : resolve env n = .ok v := by
  have get := Environment.get?_congr same env
  unfold resolve at h ⊢
  cases bound : env.get? x with
  | none => rw [resolveFrom_missing bound] at h; cases h
  | some held =>
      cases plain : held.isRef with
      | false =>
          rw [resolveFrom_plain bound plain] at h
          rw [resolveFrom_plain (get.trans bound) plain, h]
      | true =>
          cases held with
          | ref array i =>
              rw [resolveFrom_ref bound List.not_mem_nil] at h
              rw [resolveFrom_ref (get.trans bound) List.not_mem_nil, same, h]
          | _ => cases plain

namespace Context

variable {ctx : Context} {x : Name} {v : Value} {level : Nat} {g : Node}
  {r : Except Failure Value}

/-- Wherever the name stands for the value, the expression has the result, and evaluating it changes
    nothing. -/
structure Determines (ctx : Context) (x : Name) (v : Value) (level : Nat) (g : Node)
    (r : Except Failure Value) : Prop where
  finds {fuel : Nat} {env : Environment} (enough : sizeOf g ≤ fuel)
    (held : resolve env x = .ok v) : (ctx.evaluate fuel level g env).Finds env r
  barred (deep : ctx.Bars level) : r = .error (.fault .nesting)

/-- Where each of some expressions is determined, so are their values from left to right. -/
theorem Determines.all {nodes : List Node}
    (each : ∀ p ∈ nodes, ∃ r, ctx.Determines x v level p r) :
    ∃ r, ∀ fuel env, (∀ p ∈ nodes, sizeOf p ≤ fuel) → resolve env x = .ok v →
      (Machine.evaluateAll (ctx.machine fuel level) nodes env).Finds env r := by
  induction nodes with
  | nil => exact ⟨.ok [], fun _ env _ _ => Act.lift_gives (.ok ([], env))⟩
  | cons p rest ih =>
      obtain ⟨⟨first, determines⟩, others⟩ := List.forall_mem_cons.1 each
      obtain ⟨remaining, all⟩ := ih others
      refine ⟨first >>= fun v => remaining >>= fun vs => .ok (v :: vs),
        fun fuel env enough held => ?_⟩
      obtain ⟨enough, enough'⟩ := List.forall_mem_cons.1 enough
      exact (determines.finds enough held).bind fun v _ =>
        (all fuel env enough' held).bind fun vs _ => Act.lift_gives (.ok (v :: vs, env))

/-- What a node comes to is decided by its level and by the rule for it. -/
theorem Determines.of_rule
    (rule : ∀ fuel env, (∀ p ∈ g.parts, sizeOf p ≤ fuel) → resolve env x = .ok v →
      (Machine.evaluateNode ctx (ctx.machine fuel (level + 1)) g env).Finds env r) :
    ∃ r, ctx.Determines x v level g r := by
  have decided {q : Except Failure Value} (barred : ctx.Bars level → q = .error (.fault .nesting))
      (entered : ¬ ctx.Bars level → q = r) : ctx.Determines x v level g q := by
    refine ⟨fun {fuel env} enough held => ?_, barred⟩
    have pos := g.sizeOf_pos
    obtain ⟨fuel, rfl⟩ : ∃ k, fuel = k + 1 := ⟨fuel - 1, by omega⟩
    have parts (p : Node) (hp : p ∈ g.parts) : sizeOf p ≤ fuel := by
      have := Node.sizeOf_parts hp
      omega
    refine evaluate_gives (fun deep => by rw [barred deep]; rfl) fun admitted => ?_
    rw [entered admitted]
    exact rule fuel env parts held
  by_cases deep : ctx.Bars level
  · exact ⟨_, decided (fun _ => rfl) (absurd deep)⟩
  · exact ⟨r, decided (absurd · deep) fun _ => rfl⟩

/-- The items that a name stands for depend on its value alone. -/
theorem itemsOf_determined (n : Name) (v : Value) (use : Fault.ArrayUse) :
    ∃ r, ∀ env, resolve env n = .ok v → (Machine.itemsOf env n use).Gives r := by
  cases v with
  | array items =>
      refine ⟨.ok items, fun env held => ?_⟩
      unfold Machine.itemsOf
      rw [held]
      exact (Act.lift_gives (.ok _)).andThen (Act.lift_gives (.ok items))
  | _ =>
      refine ⟨.error (.fault (.notAnArray n use)), fun env held => ?_⟩
      unfold Machine.itemsOf
      rw [held]
      exact (Act.lift_gives (.ok _)).andThen (Act.lift_gives (.error _))

theorem Determines.subscript {array : Json} {indices : List Node}
    (each : ∀ p ∈ indices, ∃ r, ctx.Determines x v level p r) :
    ∃ r, ∀ fuel env, (∀ p ∈ indices, sizeOf p ≤ fuel) → resolve env x = .ok v →
      (Machine.subscript (ctx.machine fuel level) array indices env).Finds env r := by
  match indices with
  | [] => exact ⟨_, fun _ _ _ _ => Act.fail_finds (.fault (.noIndex array.shown))⟩
  | _ :: _ :: _ => exact ⟨_, fun _ _ _ _ => Act.fail_finds (.fault (.manyIndices array.shown))⟩
  | [node] =>
      obtain ⟨r, determines⟩ := each node List.mem_cons_self
      have finds {fuel : Nat} {env : Environment} (enough : ∀ p ∈ [node], sizeOf p ≤ fuel)
          (held : resolve env x = .ok v) := determines.finds (enough node List.mem_cons_self) held
      cases r with
      | error e => exact ⟨.error e, fun _ _ enough held => Act.Gives.stops (finds enough held)⟩
      | ok i =>
          cases i with
          | int n =>
              exact ⟨.ok n, fun _ env enough held =>
                Act.Gives.andThen (finds enough held) (Act.lift_gives (.ok (n, env)))⟩
          | _ =>
              exact ⟨_, fun _ _ enough held => Act.Gives.andThen (finds enough held)
                ((Act.lift_gives _).finds fun tag _ => Act.fail_finds (.fault (.indexNotInt tag)))⟩

/-- Reading an element, with the array under any spelling of the name. -/
theorem Determines.index {array : Json} {indices : List Node}
    (spelled : ∀ n, Operator.nameOf array = .ok n → n.key = x.key)
    (each : ∀ p ∈ indices, ∃ r, ctx.Determines x v level p r) :
    ∃ r, ∀ fuel env, (∀ p ∈ indices, sizeOf p ≤ fuel) → resolve env x = .ok v →
      (Machine.evaluateIndex (ctx.machine fuel level) array indices env).Finds env r := by
  obtain ⟨position, subscript⟩ := Determines.subscript each
  unfold Machine.evaluateIndex
  cases named : Operator.nameOf array with
  | error e => exact ⟨.error e, fun _ _ _ _ => Act.Gives.stops (Act.lift_gives (.error e))⟩
  | ok n =>
      obtain ⟨items, gives⟩ := itemsOf_determined n v .read
      refine ⟨items >>= fun _ => position >>= fun i => elementAt v n i,
        fun fuel env enough held => ?_⟩
      have held' : resolve env n = .ok v := resolve_congr (spelled n named) held
      refine (Act.lift_gives (.ok n)).andThen ((gives env held').finds fun _ _ => ?_)
      refine (subscript fuel env enough held).bind fun i _ => ?_
      dsimp only
      rw [held']
      exact (Act.lift_gives (.ok v)).andThen (Act.lift_finds _)

/-- The rules, one for each kind of expression. -/
theorem Determines.of_parts (consults : g.Consults x)
    (parts : ∀ p ∈ g.parts, ∃ r, ctx.Determines x v (level + 1) p r) :
    ∃ r, ctx.Determines x v level g r := by
  cases g with
  | literal content kind => exact of_rule fun _ _ _ _ => Act.lift_finds _
  | ident j =>
      refine of_rule (r := Operator.nameOf j >>= fun _ => .ok v) fun _ env _ held => ?_
      refine (Act.lift_gives _).finds fun n named => ?_
      rw [resolve_congr (consults.lookup List.mem_cons_self named) held]
      exact Act.lift_finds (.ok v)
  | arrayLit elements =>
      obtain ⟨r, finds⟩ := Determines.all parts
      exact of_rule fun fuel env enough held =>
        (finds fuel env enough held).bind fun vs _ => Act.lift_finds _
  | index array indices =>
      obtain ⟨r, finds⟩ := Determines.index (fun _ => consults.lookup List.mem_cons_self) parts
      exact of_rule finds
  | binaryOp op left right =>
      obtain ⟨a, first⟩ := parts left List.mem_cons_self
      obtain ⟨b, second⟩ := parts right (List.mem_cons_of_mem _ List.mem_cons_self)
      refine of_rule (r := a >>= fun a => b >>= fun b => Operator.binary op a b)
        fun fuel env enough held => ?_
      obtain ⟨enough, enough'⟩ := List.forall_mem_cons.1 enough
      exact (first.finds enough held).bind fun a _ =>
        (second.finds (enough' right List.mem_cons_self) held).bind fun b _ => Act.lift_finds _
  | unaryOp op operand =>
      obtain ⟨a, first⟩ := parts operand List.mem_cons_self
      exact of_rule fun fuel env enough held =>
        (first.finds (enough operand List.mem_cons_self) held).bind fun a _ => Act.lift_finds _
  | assign | call => cases (consults _ .self).1
  | _ => exact of_rule fun _ _ _ _ => Act.fail_finds _

end Context

/-- An expression that calls nothing, assigns nothing and looks up only one name is determined by
    what that name stands for. -/
theorem Node.Consults.determined (ctx : Context) {x : Name} {g : Node} (consults : g.Consults x)
    (v : Value) (level : Nat) : ∃ r, ctx.Determines x v level g r :=
  Context.Determines.of_parts consults fun _ hp => (consults.parts hp).determined ctx v (level + 1)
termination_by sizeOf g
decreasing_by exact Node.sizeOf_parts hp

end Cadence
