/-
  Reading and writing through references is a lens.

  The chain of references from a name ends at a name that is bound to a value (`Leads`), and the
  indices along it are a path into that value. `resolve` follows the path, and `store` replaces what
  stands at its end (`Leads.resolve_eq`, `Leads.store_eq`). So what is read after a write is what
  was written, and the write leaves alone whatever the path does not lead to (`store_lens`).
-/
import Cadence.Proofs.Results
import Cadence.Reference

namespace Cadence

namespace Reference

/-! ## Paths into values -/

/-- The value that is reached from another by indices. The names are those of the arrays, which
    messages need. -/
def follow (whole : Value) : List (Name × Int) → Except Failure Value
  | [] => .ok whole
  | (name, i) :: rest => elementAt whole name i >>= fun x => follow x rest

/-- A value with another one in the place that indices lead to. -/
def put : List Int → Value → Value → Value
  | [], v, _ => v
  | i :: rest, v, .array items => .array (items.modify i.toNat (put rest v))
  | _ :: _, _, whole => whole

/-- Neither path goes on where the other ends. -/
def Diverge (p q : List Int) : Prop := ¬ p <+: q ∧ ¬ q <+: p
  deriving Decidable

theorem elementAt_eq_ok {whole x : Value} {name : Name} {i : Int} :
    elementAt whole name i = .ok x ↔
      ∃ items, whole = .array items ∧ 0 ≤ i ∧ items[i.toNat]? = some x := by
  unfold elementAt
  constructor
  · intro h
    cases whole with
    | array items =>
        dsimp only at h
        split at h
        · next y found =>
            split at found
            · cases found
            · cases h
              exact ⟨items, rfl, by omega, found⟩
        · cases h
    | _ => cases h
  · rintro ⟨items, rfl, nonneg, found⟩
    simp only [if_neg (Int.not_lt.2 nonneg), found]

/-- An element depends only on the length of the array and on what stands at the index. -/
theorem elementAt_congr {items others : Array Value} {name : Name} {i : Int}
    (size : others.size = items.size) (same : 0 ≤ i → others[i.toNat]? = items[i.toNat]?) :
    elementAt (.array others) name i = elementAt (.array items) name i := by
  unfold elementAt
  by_cases negative : i < 0
  · simp [negative, size]
  · simp only [negative, if_false, same (Int.not_lt.1 negative), size]

theorem elementAt_put {whole x : Value} {name : Name} {i : Int}
    (h : elementAt whole name i = .ok x) (other : Name) (rest : List Int) (v : Value) :
    elementAt (put (i :: rest) v whole) other i = .ok (put rest v x) := by
  obtain ⟨items, rfl, nonneg, found⟩ := elementAt_eq_ok.1 h
  refine elementAt_eq_ok.2 ⟨_, rfl, nonneg, ?_⟩
  rw [Array.getElem?_modify, if_pos rfl, found]
  rfl

theorem elementAt_put_ne {whole x : Value} {name : Name} {i j : Int}
    (h : elementAt whole name i = .ok x) (ne : j ≠ i) (other : Name) (rest : List Int)
    (v : Value) : elementAt (put (i :: rest) v whole) other j = elementAt whole other j := by
  obtain ⟨items, rfl, nonneg, -⟩ := elementAt_eq_ok.1 h
  refine elementAt_congr Array.size_modify fun nonneg' => ?_
  rw [Array.getElem?_modify, if_neg (by omega)]

theorem follow_append (whole : Value) (s t : List (Name × Int)) :
    follow whole (s ++ t) = follow whole s >>= fun x => follow x t := by
  induction s generalizing whole with
  | nil => rfl
  | cons step s ih =>
      obtain ⟨name, i⟩ := step
      show (elementAt whole name i >>= fun x => follow x (s ++ t)) =
        (elementAt whole name i >>= fun x => follow x s) >>= fun x => follow x t
      cases elementAt whole name i with
      | error e => rfl
      | ok x => exact ih x

/-- Reading where was written. -/
theorem follow_put {whole x : Value} {s : List (Name × Int)} (h : follow whole s = .ok x)
    (v : Value) : follow (put (s.map Prod.snd) v whole) s = .ok v := by
  induction s generalizing whole with
  | nil => rfl
  | cons step s ih =>
      obtain ⟨name, i⟩ := step
      obtain ⟨y, found, tail⟩ := bind_eq_ok.1 h
      exact bind_eq_ok.2 ⟨_, elementAt_put found name _ v, ih tail⟩

/-- Reading elsewhere, by a path that diverges. -/
theorem follow_put_diverge {whole x : Value} {s t : List (Name × Int)}
    (h : follow whole s = .ok x) (apart : Diverge (t.map Prod.snd) (s.map Prod.snd)) (v : Value) :
    follow (put (s.map Prod.snd) v whole) t = follow whole t := by
  induction s generalizing whole t with
  | nil => exact absurd List.nil_prefix apart.2
  | cons step s ih =>
      obtain ⟨name, i⟩ := step
      obtain ⟨y, found, tail⟩ := bind_eq_ok.1 h
      cases t with
      | nil => exact absurd List.nil_prefix apart.1
      | cons step' t =>
          obtain ⟨other, j⟩ := step'
          by_cases same : j = i
          · subst same
            have apart : Diverge (t.map Prod.snd) (s.map Prod.snd) :=
              ⟨fun p => apart.1 (List.cons_prefix_cons.2 ⟨rfl, p⟩),
                fun p => apart.2 (List.cons_prefix_cons.2 ⟨rfl, p⟩)⟩
            have there : elementAt whole other j = .ok y :=
              elementAt_eq_ok.2 (elementAt_eq_ok.1 found)
            show (elementAt (put (j :: s.map Prod.snd) v whole) other j >>= fun x => follow x t) =
              elementAt whole other j >>= fun x => follow x t
            rw [elementAt_put found, there]
            exact ih tail apart
          · show (elementAt (put (i :: s.map Prod.snd) v whole) other j >>= fun x => follow x t) =
              elementAt whole other j >>= fun x => follow x t
            rw [elementAt_put_ne found same]

/-- Writing what is there. -/
theorem put_follow {whole x : Value} {s : List (Name × Int)} (h : follow whole s = .ok x) :
    put (s.map Prod.snd) x whole = whole := by
  induction s generalizing whole with
  | nil => exact (Except.ok.inj h).symm
  | cons step s ih =>
      obtain ⟨name, i⟩ := step
      obtain ⟨y, found, tail⟩ := bind_eq_ok.1 h
      obtain ⟨items, rfl, -, found⟩ := elementAt_eq_ok.1 found
      refine congrArg Value.array (Array.ext_getElem? fun j => ?_)
      rw [Array.getElem?_modify]
      split
      · next at_i =>
          rw [← at_i, found]
          exact congrArg some (ih tail)
      · rfl

/-- The later of two writes counts. -/
theorem put_put (p : List Int) (v w whole : Value) : put p w (put p v whole) = put p w whole := by
  induction p generalizing whole with
  | nil => rfl
  | cons i p ih =>
      cases whole with
      | array items =>
          refine congrArg Value.array (Array.ext_getElem? fun j => ?_)
          simp only [Array.getElem?_modify]
          split
          · cases items[j]? with
            | none => rfl
            | some x => exact congrArg some (ih x)
          · rfl
      | _ => rfl

/-- A write at the end of two paths is one at the end of the first, of what the second gives. -/
theorem put_append {whole x : Value} {s : List (Name × Int)} (h : follow whole s = .ok x)
    (q : List Int) (v : Value) :
    put (s.map Prod.snd ++ q) v whole = put (s.map Prod.snd) (put q v x) whole := by
  induction s generalizing whole with
  | nil => cases h; rfl
  | cons step s ih =>
      obtain ⟨name, i⟩ := step
      obtain ⟨y, found, tail⟩ := bind_eq_ok.1 h
      obtain ⟨items, rfl, -, found⟩ := elementAt_eq_ok.1 found
      refine congrArg Value.array (Array.ext_getElem? fun j => ?_)
      simp only [Array.getElem?_modify]
      split
      · next at_i =>
          rw [← at_i, found]
          exact congrArg some (ih tail)
      · rfl

end Reference

/-! ## Binding a name -/

namespace Frame

/-- Names are told apart by their keys. -/
theorem get?_congr {n m : Name} (same : n.key = m.key) (f : Frame) : f.get? n = f.get? m := by
  induction f with
  | nil => rfl
  | cons b rest ih =>
      have alike : b.1.same n = b.1.same m := by
        rw [Bool.eq_iff_iff, Name.same_iff, Name.same_iff, same]
      rw [get?, get?, alike, ih]

theorem get?_insert (f : Frame) (n m : Name) (v : Value) :
    (f.insert n v).get? m = if m.key = n.key then some v else f.get? m := by
  induction f with
  | nil =>
      simp only [insert, get?, Name.same_iff]
      by_cases hm : m.key = n.key
      · rw [if_pos hm.symm, if_pos hm]
      · rw [if_neg (Ne.symm hm), if_neg hm]
  | cons b rest ih =>
      obtain ⟨k, old⟩ := b
      rw [insert]
      by_cases hk : k.key = n.key
      · rw [if_pos (Name.same_iff.2 hk)]
        simp only [get?, Name.same_iff, hk]
        by_cases hm : m.key = n.key
        · rw [if_pos hm.symm, if_pos hm]
        · rw [if_neg (Ne.symm hm), if_neg hm, if_neg (Ne.symm hm)]
      · rw [if_neg (mt Name.same_iff.1 hk)]
        simp only [get?, Name.same_iff, ih]
        by_cases hm : k.key = m.key
        · rw [if_pos hm, if_pos hm, if_neg fun e => hk (hm.trans e)]
        · rw [if_neg hm, if_neg hm]

/-- Binding a name to what it is bound to. -/
theorem insert_self {f : Frame} {n : Name} {v : Value} (h : f.get? n = some v) :
    f.insert n v = f := by
  induction f with
  | nil => cases h
  | cons b rest ih =>
      obtain ⟨k, old⟩ := b
      rw [get?] at h
      rw [insert]
      by_cases hk : k.same n = true
      · rw [if_pos hk] at h ⊢
        rw [Option.some.inj h]
      · rw [if_neg hk] at h ⊢
        rw [ih h]

theorem insert_insert (f : Frame) (n : Name) (v w : Value) :
    (f.insert n v).insert n w = f.insert n w := by
  induction f with
  | nil => simp [insert, Name.same_iff]
  | cons b rest ih =>
      obtain ⟨k, old⟩ := b
      simp only [insert]
      by_cases hk : k.same n = true
      · simp only [if_pos hk, insert]
      · simp only [if_neg hk, insert, ih]

theorem insert_comm {f : Frame} {n m : Name} {old : Value} (apart : n.key ≠ m.key)
    (h : f.get? n = some old) (v w : Value) :
    (f.insert n v).insert m w = (f.insert m w).insert n v := by
  induction f with
  | nil => cases h
  | cons b rest ih =>
      obtain ⟨k, held⟩ := b
      rw [get?] at h
      by_cases hn : k.same n = true
      · have hm : ¬ k.same m = true := fun hm =>
          apart ((Name.same_iff.1 hn).symm.trans (Name.same_iff.1 hm))
        simp only [insert, if_pos hn, if_neg hm]
      · rw [if_neg hn] at h
        by_cases hm : k.same m = true
        · simp only [insert, if_neg hn, if_pos hm]
        · simp only [insert, if_neg hn, if_neg hm, ih h]

/-- Binding a name that is there changes one entry, the first under that name. -/
theorem insert_split {f : Frame} {n : Name} {old : Value} (h : f.get? n = some old) (v : Value) :
    ∃ before k after, k.key = n.key ∧ (∀ b ∈ before, b.1.key ≠ n.key) ∧
      f = before ++ (k, old) :: after ∧ f.insert n v = before ++ (k, v) :: after := by
  induction f with
  | nil => cases h
  | cons b rest ih =>
      obtain ⟨k, w⟩ := b
      rw [get?] at h
      rw [insert]
      by_cases hk : k.same n = true
      · rw [if_pos hk] at h ⊢
        cases h
        exact ⟨[], k, rest, Name.same_iff.1 hk, by simp, rfl, rfl⟩
      · rw [if_neg hk] at h ⊢
        obtain ⟨before, k', after, key, fresh, eq, eq'⟩ := ih h
        refine ⟨(k, w) :: before, k', after, key, ?_, by rw [eq]; rfl, by rw [eq']; rfl⟩
        exact List.forall_mem_cons.2 ⟨mt Name.same_iff.2 hk, fresh⟩

end Frame

namespace Environment

variable {env env' : Environment} {n m : Name} {v w : Value}

theorem get?_congr (same : n.key = m.key) (env : Environment) : env.get? n = env.get? m := by
  rw [get?, get?, Frame.get?_congr same, Frame.get?_congr same]

theorem set_local {old : Value} (h : env.locals.get? n = some old) (v : Value) :
    env.set n v = .ok { env with locals := env.locals.insert n v } := by
  unfold set scope?
  simp [h]

theorem set_global {old : Value} (outside : env.locals.get? n = none)
    (h : env.globals.get? n = some old) (v : Value) :
    env.set n v = .ok { env with globals := env.globals.insert n v } := by
  unfold set scope?
  simp [outside, h]

/-- The frame that binds a name: the locals first. -/
theorem get?_cases {old : Value} (h : env.get? n = some old) :
    env.locals.get? n = some old ∨ env.locals.get? n = none ∧ env.globals.get? n = some old :=
  Option.or_eq_some_iff.1 h

/-- A name that is bound can be bound again, and this is what names are bound to then. -/
theorem set_spec {old : Value} (h : env.get? n = some old) (v : Value) :
    ∃ env', env.set n v = .ok env' ∧
      ∀ m, env'.get? m = if m.key = n.key then some v else env.get? m := by
  rcases get?_cases h with inside | ⟨outside, h⟩
  · refine ⟨_, set_local inside v, fun m => ?_⟩
    rw [get?, Frame.get?_insert]
    split <;> rfl
  · refine ⟨_, set_global outside h v, fun m => ?_⟩
    rw [get?, Frame.get?_insert]
    by_cases hm : m.key = n.key
    · rw [if_pos hm, if_pos hm, Frame.get?_congr hm, outside]
      rfl
    · rw [if_neg hm, if_neg hm]
      rfl

theorem set_self (h : env.get? n = some v) : env.set n v = .ok env := by
  rcases get?_cases h with inside | ⟨outside, h⟩
  · rw [set_local inside, Frame.insert_self inside]
  · rw [set_global outside h, Frame.insert_self h]

theorem set_set {old : Value} (h : env.get? n = some old) (hv : env.set n v = .ok env')
    (w : Value) : env'.set n w = env.set n w := by
  have bound (f : Frame) : (f.insert n v).get? n = some v := by
    rw [Frame.get?_insert, if_pos rfl]
  rcases get?_cases h with inside | ⟨outside, h⟩
  · rw [set_local inside] at hv ⊢
    cases hv
    rw [set_local (bound _), Frame.insert_insert]
  · rw [set_global outside h] at hv ⊢
    cases hv
    have outside' : ({ env with globals := env.globals.insert n v } : Environment).locals.get? n =
      none := outside
    rw [set_global outside' (bound _), Frame.insert_insert]

/-- Two names can be bound in either order. -/
theorem set_comm {old held : Value} {env₁ env₂ : Environment} (apart : n.key ≠ m.key)
    (hn : env.get? n = some old) (hm : env.get? m = some held) (first : env.set n v = .ok env₁)
    (second : env₁.set m w = .ok env₂) :
    ∃ env', env.set m w = .ok env' ∧ env'.set n v = .ok env₂ := by
  obtain ⟨locals, globals, activation⟩ := env
  have inLocals {l g : Frame} {k : Name} {x : Value} (h : l.get? k = some x) (u : Value) :
      (⟨l, g, activation⟩ : Environment).set k u = .ok ⟨l.insert k u, g, activation⟩ :=
    set_local h u
  have inGlobals {l g : Frame} {k : Name} {x : Value} (outside : l.get? k = none)
      (h : g.get? k = some x) (u : Value) :
      (⟨l, g, activation⟩ : Environment).set k u = .ok ⟨l, g.insert k u, activation⟩ :=
    set_global outside h u
  have keeps (f : Frame) : (f.insert n v).get? m = f.get? m := by
    rw [Frame.get?_insert, if_neg (Ne.symm apart)]
  have keeps' (f : Frame) : (f.insert m w).get? n = f.get? n := by
    rw [Frame.get?_insert, if_neg apart]
  rcases get?_cases hn with inside | ⟨outside, hn⟩
  · rw [inLocals inside] at first
    cases first
    rcases get?_cases hm with inside' | ⟨outside', hm⟩
    · rw [inLocals ((keeps _).trans inside'), Frame.insert_comm apart inside] at second
      exact ⟨_, inLocals inside' w, (inLocals ((keeps' _).trans inside) v).trans second⟩
    · rw [inGlobals ((keeps _).trans outside') hm] at second
      exact ⟨_, inGlobals outside' hm w, (inLocals inside v).trans second⟩
  · rw [inGlobals outside hn] at first
    cases first
    rcases get?_cases hm with inside' | ⟨outside', hm⟩
    · rw [inLocals inside'] at second
      exact ⟨_, inLocals inside' w, (inGlobals ((keeps' _).trans outside) hn v).trans second⟩
    · rw [inGlobals outside' ((keeps _).trans hm), Frame.insert_comm apart hn] at second
      exact ⟨_, inGlobals outside' hm w, (inGlobals outside ((keeps' _).trans hn) v).trans second⟩

/-- The environments differ in what one name is bound to, in the frame that has it, the locals
    before the globals. All else is the same, the order of the names too. -/
inductive Rebinds (n : Name) (old new : Value) : Environment → Environment → Prop
  | inLocals {before after globals : Frame} {activation : Ghost (Option Activation)} {k : Name}
      (key : k.key = n.key) (first : ∀ b ∈ before, b.1.key ≠ n.key) :
      Rebinds n old new ⟨before ++ (k, old) :: after, globals, activation⟩
        ⟨before ++ (k, new) :: after, globals, activation⟩
  | inGlobals {locals before after : Frame} {activation : Ghost (Option Activation)} {k : Name}
      (outside : locals.get? n = none) (key : k.key = n.key)
      (first : ∀ b ∈ before, b.1.key ≠ n.key) :
      Rebinds n old new ⟨locals, before ++ (k, old) :: after, activation⟩
        ⟨locals, before ++ (k, new) :: after, activation⟩

theorem set_rebinds {old : Value} (h : env.get? n = some old) (hv : env.set n v = .ok env') :
    Rebinds n old v env env' := by
  obtain ⟨locals, globals, activation⟩ := env
  rcases get?_cases h with inside | ⟨outside, h⟩
  · rw [set_local inside] at hv
    cases hv
    obtain ⟨before, k, after, key, first, eq, eq'⟩ := Frame.insert_split inside v
    dsimp only at eq eq'
    rw [eq', eq]
    exact .inLocals key first
  · rw [set_global outside h] at hv
    cases hv
    obtain ⟨before, k, after, key, first, eq, eq'⟩ := Frame.insert_split h v
    dsimp only at eq eq'
    rw [eq', eq]
    exact .inGlobals outside key first

end Environment

/-- No array in the value is longer than arrays can grow. -/
inductive Value.Short : Value → Prop
  | array {items : Array Value} (size : items.size ≤ maxArrayLength)
      (each : ∀ v ∈ items, Short v) : Short (.array items)
  | other {v : Value} (h : ∀ items, v ≠ .array items) : Short v

def Environment.Short (env : Environment) : Prop := ∀ b ∈ env.locals ++ env.globals, b.2.Short

theorem Environment.Short.get? {env : Environment} {n : Name} {v : Value} (short : env.Short)
    (h : env.get? n = some v) : v.Short := by
  rcases get?_cases h with inside | ⟨-, outside⟩
  · obtain ⟨before, k, after, -, -, eq, -⟩ := Frame.insert_split inside v
    exact short (k, v) (by simp [eq])
  · obtain ⟨before, k, after, -, -, eq, -⟩ := Frame.insert_split outside v
    exact short (k, v) (by simp [eq])

namespace Reference

variable {env : Environment} {n m root : Name} {whole v x : Value} {steps : List (Name × Int)}

/-- Replacing an element that is there. -/
theorem replaceHeld_eq {array : Name} {i : Int} (within : i < maxArrayLength)
    (h : elementAt whole array i = .ok x) (v : Value) :
    replaceHeld whole array i v = .ok (put [i] v whole) := by
  obtain ⟨items, rfl, nonneg, found⟩ := elementAt_eq_ok.1 h
  have inside : i.toNat < items.size := (Array.getElem?_eq_some_iff.1 found).1
  unfold replaceHeld
  rw [h]
  show replaceElement none items array i v = _
  unfold replaceElement setSlot
  rw [if_neg (by omega), if_neg (by omega), if_pos inside]
  refine congrArg (fun items => Except.ok (Value.array items)) (Array.ext_getElem? fun j => ?_)
  rw [Array.getElem?_setIfInBounds, Array.getElem?_modify]
  by_cases at_i : i.toNat = j
  · rw [if_pos at_i, if_pos at_i, ← at_i, if_pos inside, found]
    rfl
  · rw [if_neg at_i, if_neg at_i]

/-- Every index of a path into short arrays is one that can be written at. -/
theorem within_of_follow (h : follow whole steps = .ok x) (short : whole.Short) :
    ∀ step ∈ steps, step.2 < maxArrayLength := by
  induction steps generalizing whole with
  | nil => exact fun _ member => nomatch member
  | cons step rest ih =>
      obtain ⟨y, found, tail⟩ := bind_eq_ok.1 h
      obtain ⟨items, rfl, nonneg, found⟩ := elementAt_eq_ok.1 found
      have inside : step.2.toNat < items.size := (Array.getElem?_eq_some_iff.1 found).1
      cases short with
      | array size each =>
          refine List.forall_mem_cons.2 ⟨by omega, ?_⟩
          exact ih tail (each y (Array.mem_of_getElem? found))
      | other h => exact absurd rfl (h items)

theorem short_of_follow (h : follow whole steps = .ok x) (short : whole.Short) : x.Short := by
  induction steps generalizing whole with
  | nil =>
      cases h
      exact short
  | cons step rest ih =>
      obtain ⟨y, found, tail⟩ := bind_eq_ok.1 h
      obtain ⟨items, rfl, -, found⟩ := elementAt_eq_ok.1 found
      cases short with
      | array _ each => exact ih tail (each y (Array.mem_of_getElem? found))
      | other h => exact absurd rfl (h items)

/-! ## Chains -/

/-- So many references lead from a name to one that is not bound to a reference. -/
inductive Distance (env : Environment) : Name → Nat → Prop
  | stop {n : Name} (no : ∀ array i, env.get? n ≠ some (.ref array i)) : Distance env n 0
  | ref {n array : Name} {i : Int} {d : Nat} (bound : env.get? n = some (.ref array i))
      (rest : Distance env array d) : Distance env n (d + 1)

/-- The keys that a chain has passed are of names further out than it is now. -/
def Passed (env : Environment) (d : Nat) (seen : List Name.Key) : Prop :=
  ∀ k ∈ seen, ∃ m further, m.key = k ∧ Distance env m further ∧ d < further

namespace Distance

theorem unique {d d' : Nat} (h : Distance env n d) (h' : Distance env m d')
    (same : n.key = m.key) : d = d' := by
  induction h generalizing m d' with
  | stop no =>
      cases h' with
      | stop => rfl
      | ref bound =>
          rw [← Environment.get?_congr same] at bound
          exact absurd bound (no _ _)
  | ref bound rest ih =>
      rw [Environment.get?_congr same] at bound
      cases h' with
      | stop no => exact absurd bound (no _ _)
      | ref bound' rest' =>
          rw [bound'] at bound
          cases bound
          rw [ih rest' rfl]

theorem fresh {d : Nat} {seen : List Name.Key} (h : Distance env n d)
    (passed : Passed env d seen) : n.key ∉ seen := by
  intro member
  obtain ⟨m, further, key, h', longer⟩ := passed n.key member
  -- a name further out with the key of `n` is as far out as `n`
  have same : d = further := h.unique h' key.symm
  omega

theorem passed_cons {d : Nat} {seen : List Name.Key} (h : Distance env n (d + 1))
    (passed : Passed env (d + 1) seen) : Passed env d (n.key :: seen) := by
  refine List.forall_mem_cons.2 ⟨⟨n, d + 1, rfl, h, by omega⟩, fun k hk => ?_⟩
  obtain ⟨m, further, key, h', longer⟩ := passed k hk
  exact ⟨m, further, key, h', by omega⟩

end Distance

/-- The chain of references from a name ends at `root`, which is bound to a value. The steps lead
    from there back to the name: each is an array, by name, and an index into it. -/
inductive Leads (env : Environment) : Name → Name → List (Name × Int) → Prop
  | root {n : Name} {v : Value} (bound : env.get? n = some v) (plain : v.isRef = false) :
      Leads env n n []
  | ref {n array root : Name} {i : Int} {steps : List (Name × Int)}
      (bound : env.get? n = some (.ref array i)) (rest : Leads env array root steps) :
      Leads env n root (steps ++ [(array, i)])

namespace Leads

theorem end_bound (h : Leads env n root steps) :
    ∃ whole, env.get? root = some whole ∧ whole.isRef = false := by
  induction h with
  | root bound plain => exact ⟨_, bound, plain⟩
  | ref _ _ ih => exact ih

/-- A name has one chain. -/
theorem unique {root' : Name} {steps' : List (Name × Int)} (h : Leads env n root steps)
    (h' : Leads env m root' steps') (same : n.key = m.key) :
    root.key = root'.key ∧ steps = steps' := by
  induction h generalizing m root' steps' with
  | root bound plain =>
      cases h' with
      | root => exact ⟨same, rfl⟩
      | ref bound' =>
          rw [Environment.get?_congr same, bound'] at bound
          cases bound
          cases plain
  | ref bound rest ih =>
      rw [Environment.get?_congr same] at bound
      cases h' with
      | root bound' plain =>
          rw [bound'] at bound
          cases bound
          cases plain
      | ref bound' rest' =>
          rw [bound'] at bound
          cases bound
          obtain ⟨root, steps⟩ := ih rest' rfl
          exact ⟨root, by rw [steps]⟩

/-- Only a name whose chain ends has a value. -/
theorem of_resolveFrom {seen : List Name.Key} (h : resolveFrom env n seen = .ok x) :
    ∃ root steps, Leads env n root steps := by
  fun_induction resolveFrom env n seen generalizing x with
  | case1 => cases h
  | case2 => cases h
  | case3 n seen array i bound fresh _ held r ih =>
      obtain ⟨root, steps, leads⟩ := ih r
      exact ⟨root, _, .ref bound leads⟩
  | case4 => cases h
  | case5 n seen held notRef bound =>
      refine ⟨n, [], .root bound ?_⟩
      cases held with
      | ref array i => exact (notRef array i rfl).elim
      | _ => rfl

theorem distance (h : Leads env n root steps) : Distance env n steps.length := by
  induction h with
  | root bound plain =>
      refine .stop fun array i eq => ?_
      rw [bound] at eq
      cases eq
      cases plain
  | ref bound _ ih =>
      rw [List.length_append]
      exact .ref bound ih

theorem resolveFrom_eq {seen : List Name.Key} (h : Leads env n root steps)
    (bound : env.get? root = some whole) (passed : Passed env steps.length seen) :
    resolveFrom env n seen = follow whole steps := by
  induction h generalizing seen with
  | root bound' plain =>
      rw [bound'] at bound
      cases bound
      exact resolveFrom_plain bound' plain seen
  | ref bound' rest ih =>
      rw [List.length_append] at passed
      have further := Distance.ref bound' rest.distance
      rw [resolveFrom_ref bound' (further.fresh passed), ih bound (further.passed_cons passed),
        follow_append]
      congr 1
      funext held
      show elementAt held _ _ = elementAt held _ _ >>= fun x => .ok x
      cases elementAt held _ _ <;> rfl

/-- Reading follows the path of a name into the value at the end of its chain. -/
theorem resolve_eq (h : Leads env n root steps) (bound : env.get? root = some whole) :
    resolve env n = follow whole steps :=
  h.resolveFrom_eq bound fun _ member => nomatch member

theorem storeFrom_eq {seen : List Name.Key} (h : Leads env n root steps)
    (bound : env.get? root = some whole) (found : follow whole steps = .ok x)
    (within : ∀ step ∈ steps, step.2 < maxArrayLength) (v : Value)
    (passed : Passed env steps.length seen) :
    storeFrom env n v seen = env.set root (put (steps.map Prod.snd) v whole) := by
  induction h generalizing seen x v with
  | root bound' plain => exact storeFrom_plain bound' plain v seen
  | @ref n array root i steps bound' rest ih =>
      rw [List.length_append] at passed
      have further := Distance.ref bound' rest.distance
      obtain ⟨before, last⟩ := List.forall_mem_append.1 within
      rw [follow_append] at found
      obtain ⟨held, found, tail⟩ := bind_eq_ok.1 found
      have element : elementAt held array i = .ok x := by
        obtain ⟨y, element, eq⟩ := bind_eq_ok.1 tail
        rw [element, ← Except.ok.inj eq]
      -- the write to `n` becomes one of the rebuilt array to the name that holds it
      rw [storeFrom_ref bound' (further.fresh passed), rest.resolve_eq bound, found]
      show (replaceHeld held array i v >>= fun updated => _) = _
      rw [replaceHeld_eq (last _ (List.mem_singleton.2 rfl)) element]
      show storeFrom env array (put [i] v held) (n.key :: seen) = _
      rw [ih bound found before _ (further.passed_cons passed), List.map_append, put_append found]
      rfl

/-- Writing puts a value at the end of the path of a name. -/
theorem store_eq (h : Leads env n root steps) (bound : env.get? root = some whole)
    (found : follow whole steps = .ok x) (within : ∀ step ∈ steps, step.2 < maxArrayLength)
    (v : Value) : store env n v = env.set root (put (steps.map Prod.snd) v whole) :=
  h.storeFrom_eq bound found within v fun _ member => nomatch member

/-- Chains stay as they are when a name that is bound to a value is bound to another one. -/
theorem rebind {env' : Environment} {old new : Value} {end' : Name} (h : Leads env m end' steps)
    (bound : env.get? root = some old) (plain : old.isRef = false) (plain' : new.isRef = false)
    (get : ∀ k, env'.get? k = if k.key = root.key then some new else env.get? k) :
    Leads env' m end' steps := by
  induction h with
  | @root n v bound' plainEnd =>
      by_cases at_root : n.key = root.key
      · exact .root ((get n).trans (if_pos at_root)) plain'
      · exact .root ((get n).trans ((if_neg at_root).trans bound')) plainEnd
  | @ref n array _ i _ bound' rest ih =>
      have elsewhere : n.key ≠ root.key := by
        intro at_root
        rw [Environment.get?_congr at_root, bound] at bound'
        cases bound'
        cases plain
      exact .ref ((get n).trans ((if_neg elsewhere).trans bound')) ih

theorem root_mem (h : Leads env n root steps) : root ∈ n :: steps.map Prod.fst := by
  induction h with
  | root => exact List.mem_cons_self
  | ref _ _ ih =>
      refine List.mem_cons_of_mem _ ?_
      rw [List.map_append, List.mem_append]
      rcases List.mem_cons.1 ih with rfl | inside
      · exact .inr List.mem_cons_self
      · exact .inl inside

/-- A chain stays as it is when a name is bound that it does not pass through. -/
theorem bind_off {env' : Environment} {k : Name} (h : Leads env n root steps)
    (off : ∀ m ∈ n :: steps.map Prod.fst, m.key ≠ k.key)
    (get : ∀ m, m.key ≠ k.key → env'.get? m = env.get? m) : Leads env' n root steps := by
  induction h with
  | root bound plain => exact .root ((get _ (off _ List.mem_cons_self)).trans bound) plain
  | ref bound _ ih =>
      refine .ref ((get _ (off _ List.mem_cons_self)).trans bound) (ih fun m inside => off m ?_)
      rw [List.map_append, List.mem_cons, List.mem_append]
      rcases List.mem_cons.1 inside with rfl | inside
      · exact .inr (.inr List.mem_cons_self)
      · exact .inr (.inl inside)

end Leads

theorem isRef_put (p : List Int) (hv : v.isRef = false) (hw : whole.isRef = false) :
    (put p v whole).isRef = false := by
  cases p with
  | nil => exact hv
  | cons i p =>
      cases whole with
      | array items => rfl
      | _ => exact hw

/-! ## The laws -/

/-- A value can be written to every name that has one. Then the name has the new value, only what
    the end of its chain is bound to has changed, and every name has its value still whose chain
    ends elsewhere or whose path diverges. Writing what a name has already changes nothing, and the
    later of two writes counts. -/
theorem store_lens {held : Value} (short : env.Short) (found : resolve env n = .ok held)
    (plain : v.isRef = false) :
    ∃ root steps old new env', Leads env n root steps ∧ store env n v = .ok env' ∧
      resolve env' n = .ok v ∧
      (old.isRef = false ∧ new.isRef = false ∧ Environment.Rebinds root old new env env') ∧
      (∀ m root' steps', Leads env m root' steps' →
        root'.key ≠ root.key ∨ Diverge (steps'.map Prod.snd) (steps.map Prod.snd) →
          resolve env' m = resolve env m) ∧
      store env n held = .ok env ∧ ∀ w, store env' n w = store env n w := by
  obtain ⟨root, steps, leads⟩ := Leads.of_resolveFrom found
  obtain ⟨whole, bound, plainEnd⟩ := leads.end_bound
  rw [leads.resolve_eq bound] at found
  have within := within_of_follow found (short.get? bound)
  have stores := leads.store_eq bound found within
  have plainNew := isRef_put (steps.map Prod.snd) plain plainEnd
  obtain ⟨env', set, get⟩ := Environment.set_spec bound (put (steps.map Prod.snd) v whole)
  have bound' : env'.get? root = some (put (steps.map Prod.snd) v whole) :=
    (get root).trans (if_pos rfl)
  -- `env'` has the chains of `env`
  have chains {m end' : Name} {s : List (Name × Int)} (h : Leads env m end' s) :
      Leads env' m end' s := h.rebind bound plainEnd plainNew get
  have found' := follow_put found v
  refine ⟨root, steps, whole, _, env', leads, (stores v).trans set, ?reads,
    ⟨plainEnd, plainNew, Environment.set_rebinds bound set⟩, ?elsewhere, ?back, ?again⟩
  case reads => rw [(chains leads).resolve_eq bound', found']
  case elsewhere =>
    intro m root' steps' leads' apart
    obtain ⟨whole', bound₁, -⟩ := leads'.end_bound
    by_cases same : root'.key = root.key
    · have diverge := apart.resolve_left fun ne => ne same
      have bound₂ := bound'
      rw [← Environment.get?_congr same] at bound bound₂
      rw [(chains leads').resolve_eq bound₂, leads'.resolve_eq bound,
        follow_put_diverge found diverge]
    · have bound₂ : env'.get? root' = some whole' := ((get root').trans (if_neg same)).trans bound₁
      rw [(chains leads').resolve_eq bound₂, leads'.resolve_eq bound₁]
  case back => rw [stores, put_follow found, Environment.set_self bound]
  case again =>
    intro w
    rw [(chains leads).store_eq bound' found' within, put_put, Environment.set_set bound set,
      stores]

/-- A write through two references, to an element of the second row of a grid, which hides a
    global of its name. The other name into this row has its value still. -/
theorem store_lens_grid :
    let row (a b : Int) : Value := .array #[.int a, .int b]
    let env : Environment := {
      locals := [(.text "grid", .array #[row 1 2, row 3 4]), (.text "row", .ref (.text "grid") 1),
        (.text "x", .ref (.text "row") 0), (.text "y", .ref (.text "row") 1)]
      globals := [(.text "grid", .int 9)] }
    ∃ env', store env (.text "x") (.int 7) = .ok env' ∧ resolve env' (.text "x") = .ok (.int 7) ∧
      resolve env' (.text "y") = .ok (.int 4) ∧ store env (.text "x") (.int 3) = .ok env := by
  intro row env
  have hrow : Leads env (.text "row") (.text "grid") [(.text "grid", 1)] := .ref rfl (.root rfl rfl)
  have hx := Leads.ref (n := .text "x") (i := 0) rfl hrow
  have hy := Leads.ref (n := .text "y") (i := 1) rfl hrow
  have two {a b : Value} (ha : a.Short) (hb : b.Short) : (Value.array #[a, b]).Short :=
    .array (show 2 ≤ maxArrayLength by decide) (by simp [ha, hb])
  have each (a b : Int) : (row a b).Short := two (.other nofun) (.other nofun)
  have short : env.Short := by
    intro b member
    simp only [env, List.cons_append, List.nil_append, List.mem_cons, List.not_mem_nil,
      or_false] at member
    rcases member with rfl | rfl | rfl | rfl | rfl
    · exact two (each 1 2) (each 3 4)
    all_goals exact .other nofun
  have found : resolve env (.text "x") = .ok (.int 3) := hx.resolve_eq rfl
  obtain ⟨root, steps, old, new, env', leads, stored, reads, -, apart, back, -⟩ :=
    store_lens (v := .int 7) short found rfl
  obtain ⟨-, rfl⟩ := leads.unique hx rfl
  refine ⟨env', stored, reads, ?_, back⟩
  rw [apart _ _ _ hy (.inr (by decide)), hy.resolve_eq rfl]
  rfl

end Reference

end Cadence
