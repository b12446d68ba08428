/-
  Frames and environments whose bindings meet a standard, and what reading, writing and declaring
  does to them.

  A name is bound to a value that meets the standard, or to a reference with an index that is not
  negative; nowhere else is a reference. So what a name resolves to is never a reference, and what
  is written through one keeps the environment as it should be.
-/
import Cadence.Proofs.Standard
import Cadence.Reference

namespace Cadence

variable {S : Standard}

/-- What a name may be bound to. -/
def Value.Bound (S : Standard) (v : Value) : Prop :=
  v.Meets S ∨ ∃ array index, v = .ref array index ∧ 0 ≤ index

def Frame.Meets (S : Standard) (f : Frame) : Prop := ∀ b ∈ f, b.2.Bound S

structure Environment.Meets (S : Standard) (env : Environment) : Prop where
  locals : env.locals.Meets S
  globals : env.globals.Meets S

/-- The declaration of a variable, with texts for its name and its type. -/
def Node.IsVariable (n : Node) : Prop := ∃ typeName name, n = .varDecl (.text typeName) (.text name)

/-- A parameter with a text for its name. -/
def Node.IsParameter (n : Node) : Prop := ∃ name typeName, n = .funcParam (.text name) typeName

theorem Node.name_safe {n : Node} {name : String} (h : n.nameField = .ok (.text name)) :
    Safe (n.nameField >>= Operator.nameOf) fun _ => True := by
  rw [h]
  exact .ok trivial

/-! ## Frames -/

namespace Frame.Meets

variable {f : Frame}

theorem nil : Frame.Meets S [] := fun _ h => nomatch h

theorem get? {name : Name} {v : Value} (h : f.Meets S) (found : f.get? name = some v) :
    v.Bound S := by
  induction f with
  | nil => cases found
  | cons b rest ih =>
      rw [Frame.get?] at found
      split at found
      · cases found
        exact h b List.mem_cons_self
      · exact ih (fun b hb => h b (List.mem_cons_of_mem _ hb)) found

theorem insert {name : Name} {v : Value} (h : f.Meets S) (hv : v.Bound S) :
    (f.insert name v).Meets S := by
  induction f with
  | nil => exact List.forall_mem_singleton.2 hv
  | cons b rest ih =>
      obtain ⟨hb, hrest⟩ := List.forall_mem_cons.1 h
      rw [Frame.insert]
      split
      · exact List.forall_mem_cons.2 ⟨hv, hrest⟩
      · exact List.forall_mem_cons.2 ⟨hb, ih hrest⟩

theorem initial_safe (t : DeclaredType) : Safe t.initial (Value.Meets S) := by
  cases t with
  | scalar tag => exact Value.Meets.default_safe tag
  | arrayOf tag => exact (Value.Meets.default_safe tag).map fun _ _ h => h.singleton

theorem ofText_safe (s : String) : Safe (DeclaredType.ofText s) fun _ => True := by
  unfold DeclaredType.ofText
  dsimp only
  split
  · split
    · exact .ok trivial
    · exact safe_fault _
  · split
    · exact .ok trivial
    · exact safe_fault _

theorem type_safe {d : Node} (h : d.IsVariable) :
    Safe (d.typeNameField >>= Frame.declaredType) fun _ => True := by
  obtain ⟨typeName, name, rfl⟩ := h
  refine Yields.bind (Q := fun j => j = .text typeName) (.ok rfl) ?_
  rintro _ - rfl
  rw [Frame.declaredType]
  exact ofText_safe typeName

/-- Variables are declared with their defaults; one that is there already stays. -/
theorem declare_safe {decls : List Node} (hd : ∀ d ∈ decls, d.IsVariable) (h : f.Meets S) :
    Safe (f.declare decls) (Frame.Meets S) := by
  induction decls generalizing f with
  | nil => exact .ok h
  | cons d rest ih =>
      obtain ⟨hvar, hrest⟩ := List.forall_mem_cons.1 hd
      have named : Safe (d.nameField >>= Operator.nameOf) fun _ => True := by
        obtain ⟨typeName, name, rfl⟩ := hvar
        exact Node.name_safe rfl
      rw [Frame.declare]
      refine named.bind fun name _ _ => ?_
      split
      · exact ih hrest h
      · have value := (type_safe hvar).bind fun t _ _ => initial_safe (S := S) t
        refine value.bind fun v _ hv => ih hrest fun b hb => ?_
        rcases List.mem_append.1 hb with hb | hb
        · exact h b hb
        · rw [List.mem_singleton.1 hb]
          exact .inl hv

theorem bindParams_safe {params : List Node} {args : List Value}
    (hp : ∀ p ∈ params, p.IsParameter) (ha : ∀ v ∈ args, v.Meets S) (h : f.Meets S) :
    Safe (f.bindParams params args) (Frame.Meets S) := by
  induction params generalizing f args with
  | nil => exact .ok h
  | cons p params ih =>
      cases args with
      | nil => exact .ok h
      | cons a args =>
          obtain ⟨⟨name, typeName, rfl⟩, hparams⟩ := List.forall_mem_cons.1 hp
          obtain ⟨hv, hargs⟩ := List.forall_mem_cons.1 ha
          rw [Frame.bindParams]
          refine (Node.name_safe rfl).bind fun name _ _ => ?_
          exact ih hparams hargs (h.insert (.inl hv))

end Frame.Meets

/-! ## Environments -/

namespace Environment.Meets

variable {env : Environment}

theorem get? {name : Name} {v : Value} (h : env.Meets S) (found : env.get? name = some v) :
    v.Bound S := by
  rw [Environment.get?, Option.or_eq_some_iff] at found
  rcases found with found | ⟨-, found⟩
  · exact h.locals.get? found
  · exact h.globals.get? found

theorem set_safe {name : Name} {v : Value} (h : env.Meets S) (hv : v.Bound S) :
    Safe (env.set name v) (Environment.Meets S) := by
  unfold Environment.set
  split
  · exact .ok ⟨h.locals.insert hv, h.globals⟩
  · exact .ok ⟨h.locals, h.globals.insert hv⟩
  · exact safe_fault _

end Environment.Meets

/-! ## References -/

namespace Reference

theorem elementAt_safe {v : Value} (h : v.Meets S) (name : Name) (index : Int) :
    Safe (elementAt v name index) (Value.Meets S) := by
  unfold elementAt
  split
  · next items =>
      split
      · next w found =>
          split at found
          · cases found
          · exact .ok (h.each (Array.mem_of_getElem? found))
      · exact safe_fault _
  · exact safe_fault _

/-- Following a chain of references ends at a value, or is a fault. -/
theorem resolveFrom_safe {env : Environment} (h : env.Meets S) (name : Name)
    (seen : List Name.Key) : Safe (resolveFrom env name seen) (Value.Meets S) := by
  fun_induction resolveFrom env name seen with
  | case1 => exact safe_fault _
  | case2 => exact safe_fault _
  | case3 name seen array index found fresh _ v r ih =>
      exact elementAt_safe (ih.of_ok r) array index
  | case4 name seen array index found fresh _ e r ih => exact .error (ih.of_error r)
  | case5 name seen v notRef found =>
      rcases h.get? found with hv | ⟨array, index, eq, -⟩
      · exact .ok hv
      · exact (notRef array index eq).elim

theorem resolve_safe {env : Environment} (h : env.Meets S) (name : Name) :
    Safe (resolve env name) (Value.Meets S) :=
  resolveFrom_safe h name []

/-- One slot set, and the gap before it filled. -/
theorem setSlot_safe {room : Value.Room} {items : Array Value} {slot : Nat} {v : Value}
    (h : (Value.array items).Meets S) (hv : v.Meets S) (bound : slot < maxArrayLength) :
    Safe (setSlot room items slot v) fun updated => (Value.array updated).Meets S := by
  unfold setSlot
  split
  · next inside =>
      refine .ok (.array ?_ ?_ fun w hw => ?_)
      · simpa using h.nonempty
      · simpa using h.size
      · rcases Array.mem_or_eq_of_mem_setIfInBounds hw with hw | rfl
        · exact h.each hw
        · exact hv
  · split
    · next last =>
        refine .ok (.array (by simp) (S.allowed (by simp; omega)) fun w hw => ?_)
        rcases Array.mem_push.1 hw with hw | rfl
        · exact h.each hw
        · exact hv
    · next outside apart =>
        refine hv.defaultLike_safe.bind fun fill _ hf => ?_
        have size :
            ((items ++ Array.replicate (slot - items.size) fill).push v).size = slot + 1 := by
          rw [Array.size_push, Array.size_append, Array.size_replicate]
          omega
        refine .ok (.array (by rw [size]; omega) (S.allowed (by rw [size]; omega)) fun w hw => ?_)
        rcases Array.mem_push.1 hw with hw | rfl
        · rcases Array.mem_append.1 hw with hw | hw
          · exact h.each hw
          · rw [Array.eq_of_mem_replicate hw]
            exact hf
        · exact hv

theorem replaceElement_safe {room : Value.Room} {items : Array Value} {v : Value}
    (h : (Value.array items).Meets S) (hv : v.Meets S) (name : Name) (index : Int) :
    Safe (replaceElement room items name index v) (Value.Meets S) := by
  unfold replaceElement
  split
  · exact safe_fault _
  · split
    · exact safe_fault _
    · exact (setSlot_safe h hv (by omega)).map fun _ _ h => h

theorem replaceHeld_safe {held v : Value} (h : held.Meets S) (hv : v.Meets S) (name : Name)
    (index : Int) : Safe (replaceHeld held name index v) (Value.Meets S) := by
  refine (elementAt_safe h name index).bind fun _ _ _ => ?_
  split
  · exact replaceElement_safe h hv name index
  · exact safe_fault _

/-- Writing through references keeps the environment as it should be. -/
theorem storeFrom_safe {env : Environment} (h : env.Meets S) (name : Name) (v : Value)
    (seen : List Name.Key) (hv : v.Meets S) :
    Safe (storeFrom env name v seen) (Environment.Meets S) := by
  have replaced {array : Name} {index : Int} {v : Value} (hv : v.Meets S) :
      Safe (resolve env array >>= fun held => replaceHeld held array index v) (Value.Meets S) :=
    (resolve_safe h array).bind fun held _ hheld => replaceHeld_safe hheld hv array index
  fun_induction storeFrom env name v seen with
  | case1 => exact safe_fault _
  | case2 => exact safe_fault _
  | case3 name v seen array index found fresh _ updated r ih => exact ih ((replaced hv).of_ok r)
  | case4 name v seen array index found fresh _ e r => exact .error ((replaced hv).of_error r)
  | case5 name v seen held notRef found => exact h.set_safe (.inl hv)

theorem store_safe {env : Environment} (h : env.Meets S) (name : Name) {v : Value}
    (hv : v.Meets S) : Safe (store env name v) (Environment.Meets S) :=
  storeFrom_safe h name v [] hv

theorem checkAssignable_safe (name : Name) {a b : Value} (ha : a.Meets S) (hb : b.Meets S) :
    Safe (checkAssignable name a b) fun _ => True := by
  have settle (held given : Tag) : Safe (if held = given then pure () else
      throw (.fault (.unassignable name held given))) fun _ : Unit => True := by
    split
    · exact .ok trivial
    · exact safe_fault _
  refine ha.tag_safe.bind fun held _ _ => hb.tag_safe.bind fun given _ _ => ?_
  split
  · refine ha.elementTag_safe.bind fun held _ _ => ?_
    exact hb.elementTag_safe.bind fun given _ _ => settle held given
  · exact settle held given

end Reference

end Cadence
