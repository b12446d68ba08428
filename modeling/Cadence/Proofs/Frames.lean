/-
  The shape of frames.

  A frame has the names that were declared for it, each at its first place, from its making to the
  end of the run. The globals are those of the program, and the locals are the parameters of the
  function that was called and its variables. A name that is the variable of no loop over an array
  is never bound to a reference, and what it is bound to is always of the kind that it had at first:
  that of the argument for a parameter, and the declared one for a variable. `run_frames` says so of
  every environment that a run of a well-formed program reaches.

  Only assignments and loops change a frame, and each of them rebinds one name that is there
  (`Reference.storeFrom_cases`). That keeps the shape (`Environment.Shaped.rebind`).
-/
import Cadence.Proofs.Layer
import Cadence.Proofs.Lens

namespace Cadence

/-! ## Loop variables -/

/-- The node is somewhere in a whole. -/
inductive Node.Contains (whole : Node) : Node → Prop
  | self : Contains whole whole
  | part {n p : Node} (inside : Contains whole n) (h : p ∈ n.parts) : Contains whole p

theorem Node.Contains.of_part {n p m : Node} (h : p ∈ n.parts) (inside : p.Contains m) :
    n.Contains m := by
  induction inside with
  | self => exact .part .self h
  | part _ h ih => exact .part ih h

/-- The way down to a node inside begins with a part. -/
theorem Node.Contains.eq_or_part {n m : Node} (inside : n.Contains m) :
    m = n ∨ ∃ p ∈ n.parts, p.Contains m := by
  induction inside with
  | self => exact .inl rfl
  | @part _ q _ hq ih =>
      rcases ih with rfl | ⟨p, hp, within⟩
      · exact .inr ⟨q, hq, .self⟩
      · exact .inr ⟨p, hp, .part within hq⟩

theorem Node.Contains.forall_of_parts {P : Node → Prop} {n : Node} (h : P n)
    (parts : ∀ p ∈ n.parts, ∀ m, p.Contains m → P m) (m : Node) (inside : n.Contains m) : P m := by
  rcases inside.eq_or_part with rfl | ⟨p, hp, within⟩
  · exact h
  · exact parts p hp m within

/-- The name is the variable of some loop over an array. -/
def Node.LoopVar (whole : Node) (name : Name) : Prop :=
  ∃ var array body n, whole.Contains (.loopStmt var array body) ∧ Operator.nameOf var = .ok n ∧
    n.key = name.key

theorem Node.LoopVar.congr {whole : Node} {n m : Name} (same : n.key = m.key) :
    whole.LoopVar n ↔ whole.LoopVar m := by
  unfold Node.LoopVar
  rw [same]

/-! ## What frames are made from -/

def DeclaredType.tag : DeclaredType → Tag
  | .scalar tag => tag
  | .arrayOf _ => .array

theorem DeclaredType.initial_tag {t : DeclaredType} {v : Value} (h : t.initial = .ok v) :
    v.tag = .ok t.tag := by
  cases t with
  | scalar tag => cases tag <;> cases h <;> rfl
  | arrayOf tag => cases tag <;> cases h <;> rfl

namespace Node

/-- The name that a declaration is for. -/
def declaredName? (n : Node) : Option Name := (n.nameField >>= Operator.nameOf).toOption

/-- The kind that a declaration names. -/
def declaredKind? (n : Node) : Option Tag :=
  (n.typeNameField >>= Frame.declaredType).toOption.map DeclaredType.tag

end Node

/-- What a frame is made from: parameters with their arguments, and variables. -/
structure Layout where
  params : List (Node × Value)
  vars : List Node

namespace Layout

/-- Every name that is declared. -/
def declared (l : Layout) : List Name :=
  (l.params.map Prod.fst ++ l.vars).filterMap Node.declaredName?

/-- The names of the frame, at their first places. -/
def names (l : Layout) : List Name := l.declared.eraseDups

/-- The kind that a name has in the frame: that of the last argument for it, or else that of its
    first declaration. -/
def kind? (l : Layout) (name : Name) : Option Tag :=
  match l.params.reverse.find? fun p => p.1.declaredName? = some name with
  | some (_, arg) => arg.tag.toOption
  | none => (l.vars.find? fun d => d.declaredName? = some name).bind Node.declaredKind?

end Layout

/-- A frame has the shape that it was made with, loop variables aside. -/
structure Frame.Fits (whole : Node) (l : Layout) (f : Frame) : Prop where
  names : f.names = l.names
  refs : ∀ b ∈ f, b.2.isRef = true → whole.LoopVar b.1
  kinds : ∀ b ∈ f, ¬ whole.LoopVar b.1 → ∃ kind, l.kind? b.1 = some kind ∧ b.2.tag = .ok kind

/-- An environment of a call. The globals are those of the program, the locals those of the
    function that is called. -/
inductive Environment.Shaped (decls functions : List Node) : Environment → Prop
  | call {name : Json} {params vars body : List Node} {args : List Value} {locals globals : Frame}
      (known : Node.funcDecl name params vars body ∈ functions)
      (arity : args.length = params.length)
      (l : locals.Fits (.program decls functions) ⟨params.zip args, vars⟩)
      (g : globals.Fits (.program decls functions) ⟨[], decls⟩) :
      Shaped decls functions
        ⟨locals, globals, .of (some ⟨.funcDecl name params vars body, args⟩)⟩

/-- Whatever frames an event is about have their shape. -/
def Event.Shaped (decls functions : List Node) : Event → Prop
  | .reached env | .yielded _ env => env.Shaped decls functions
  | .returned _ globals => globals.Fits (.program decls functions) ⟨[], decls⟩
  | .called .. | .performed .. => True

/-! ## Making a frame -/

namespace Layout

variable {l : Layout} (params : List (Node × Value)) (vars : List Node)

theorem mem_names {name : Name} : name ∈ l.names ↔ name ∈ l.declared := List.mem_eraseDups

theorem declared_param (p : Node) (a : Value) {name : Name} (named : p.declaredName? = some name) :
    declared ⟨params ++ [(p, a)], []⟩ = declared ⟨params, []⟩ ++ [name] := by
  simp [declared, named]

theorem declared_var (d : Node) {name : Name} (named : d.declaredName? = some name) :
    declared ⟨params, vars ++ [d]⟩ = declared ⟨params, vars⟩ ++ [name] := by
  simp [declared, named]

/-- One more declaration adds its name at the end, if it is a new one. -/
theorem names_snoc {l' : Layout} {name : Name} (h : l'.declared = l.declared ++ [name]) :
    l'.names = if name ∈ l.names then l.names else l.names ++ [name] := by
  rw [names, h, List.eraseDups_append]
  by_cases there : name ∈ l.declared
  · rw [if_pos (mem_names.2 there)]
    simp [List.removeAll, there, names]
  · rw [if_neg fun h => there (mem_names.1 h)]
    simp [List.removeAll, there, names, List.eraseDups_cons]

/-- A parameter has the kind of its argument, whatever was there for its name. -/
theorem kind?_param (p : Node) (a : Value) (name : Name) :
    kind? ⟨params ++ [(p, a)], []⟩ name =
      if p.declaredName? = some name then a.tag.toOption else kind? ⟨params, []⟩ name := by
  unfold kind?
  rw [List.reverse_append, List.reverse_singleton, List.singleton_append, List.find?_cons]
  by_cases named : p.declaredName? = some name
  · simp [named]
  · simp [named]

/-- A name keeps its kind when it is declared again. -/
theorem kind?_var_of_some (d : Node) {name : Name} {kind : Tag}
    (h : kind? ⟨params, vars⟩ name = some kind) :
    kind? ⟨params, vars ++ [d]⟩ name = some kind := by
  unfold kind? at h ⊢
  dsimp only at h ⊢
  split
  · next found =>
      rw [found] at h
      exact h
  · next missing =>
      rw [missing] at h
      obtain ⟨first, found, named⟩ := Option.bind_eq_some_iff.1 h
      rw [List.find?_append, found]
      exact named

/-- A new variable has its declared kind. -/
theorem kind?_var_of_not_mem (d : Node) {name : Name} (named : d.declaredName? = some name)
    (new : name ∉ declared ⟨params, vars⟩) :
    kind? ⟨params, vars ++ [d]⟩ name = d.declaredKind? := by
  simp only [declared, List.mem_filterMap, List.mem_append, not_exists, not_and] at new
  have noParam : (params.reverse.find? fun p => p.1.declaredName? = some name) = none := by
    rw [List.find?_eq_none]
    intro p hp
    simpa using new p.1 (.inl (List.mem_map_of_mem (List.mem_reverse.1 hp)))
  have noVar : (vars.find? fun d => d.declaredName? = some name) = none := by
    rw [List.find?_eq_none]
    intro e he
    simpa using new e (.inr he)
  unfold kind?
  dsimp only
  rw [noParam, List.find?_append, noVar]
  simp [named]

-- a parameter that is repeated, and declared once more as a variable
example :
    let k := Node.funcParam (.text "k") (.text "int")
    let vars := [.varDecl (.text "int[]") (.text "s"), .varDecl (.text "double") (.text "k")]
    let l : Layout := ⟨[(k, .int 2), (k, .bool true)], vars⟩
    l.names = [.text "k", .text "s"] ∧ l.kind? (.text "k") = some .bool ∧
      l.kind? (.text "s") = some .array := by
  decide +kernel

end Layout

theorem Frame.get?_text {f : Frame} {s : String} :
    f.get? (.text s) = none ↔ Name.text s ∉ f.names := by
  induction f with
  | nil => simp [Frame.get?, Frame.names]
  | cons b rest ih =>
      obtain ⟨n, v⟩ := b
      rw [Frame.get?, show Frame.names ((n, v) :: rest) = n :: Frame.names rest from rfl]
      by_cases here : n = .text s
      · rw [if_pos (Name.same_text.2 here)]
        simp [here]
      · rw [if_neg fun h => here (Name.same_text.1 h), ih]
        simp [Ne.symm here]

namespace Frame

theorem insert_new {f : Frame} {n : Name} (h : f.get? n = none) (v : Value) :
    f.insert n v = f ++ [(n, v)] := by
  induction f with
  | nil => rfl
  | cons b rest ih =>
      obtain ⟨m, w⟩ := b
      rw [Frame.get?] at h
      split at h
      · cases h
      · next other =>
          rw [Frame.insert, if_neg other, ih h]
          rfl

theorem names_insert_text (f : Frame) (s : String) (v : Value) :
    (f.insert (.text s) v).names =
      if .text s ∈ f.names then f.names else f.names ++ [.text s] := by
  cases found : f.get? (.text s) with
  | none =>
      rw [insert_new found, if_neg (get?_text.1 found)]
      exact List.map_append
  | some old =>
      have there : Name.text s ∈ f.names := by
        refine Decidable.not_not.1 fun missing => ?_
        rw [get?_text.2 missing] at found
        cases found
      obtain ⟨before, k, after, -, -, eq, eq'⟩ := insert_split found v
      rw [if_pos there, eq', eq]
      simp [names]

/-- Binding a name leaves the other names as they are. -/
theorem mem_insert_text {f : Frame} {s : String} {v : Value} (distinct : f.names.Nodup)
    {b : Name × Value} (hb : b ∈ f.insert (.text s) v) :
    b = (.text s, v) ∨ b ∈ f ∧ b.1 ≠ .text s := by
  induction f with
  | nil => exact .inl (List.mem_singleton.1 hb)
  | cons c rest ih =>
      obtain ⟨n, w⟩ := c
      obtain ⟨apart, distinct⟩ := List.nodup_cons.1 distinct
      rw [Frame.insert] at hb
      split at hb
      · next same =>
          obtain rfl := Name.same_text.1 same
          rcases List.mem_cons.1 hb with rfl | hb
          · exact .inl rfl
          · have member : b.1 ∈ Frame.names rest := List.mem_map_of_mem hb
            exact .inr ⟨List.mem_cons_of_mem _ hb, fun eq => apart (eq ▸ member)⟩
      · next other =>
          rcases List.mem_cons.1 hb with rfl | hb
          · exact .inr ⟨List.mem_cons_self, fun eq => other (Name.same_text.2 eq)⟩
          · rcases ih distinct hb with eq | ⟨hb, ne⟩
            · exact .inl eq
            · exact .inr ⟨List.mem_cons_of_mem _ hb, ne⟩

end Frame

/-- A frame as it is made. No name stands in it twice, and all kinds are those of its layout. -/
structure Frame.Made (l : Layout) (f : Frame) : Prop where
  names : f.names = l.names
  distinct : f.names.Nodup
  kinds : ∀ b ∈ f, ∃ kind, l.kind? b.1 = some kind ∧ b.2.tag = .ok kind

namespace Frame.Made

variable {l l' : Layout} {f g : Frame} {s : String} {v : Value} {kind : Tag}

theorem nil : Made ⟨[], []⟩ [] := ⟨rfl, .nil, fun _ h => nomatch h⟩

/-- A further declaration of a name that is there. -/
theorem again (h : f.Made l) (declared : l'.declared = l.declared ++ [.text s])
    (keeps : ∀ m kind, l.kind? m = some kind → l'.kind? m = some kind)
    (found : f.get? (.text s) ≠ none) : f.Made l' where
  names := by
    have there : Name.text s ∈ f.names :=
      Decidable.not_not.1 fun missing => found (get?_text.2 missing)
    rw [Layout.names_snoc declared, ← h.names, if_pos there]
  distinct := h.distinct
  kinds b hb := by
    obtain ⟨kind, has, tag⟩ := h.kinds b hb
    exact ⟨kind, keeps b.1 kind has, tag⟩

/-- A name bound to a value of the kind that the layout has for it. -/
theorem insert (h : f.Made l) (declared : l'.declared = l.declared ++ [.text s])
    (keeps : ∀ m kind, m ≠ .text s → l.kind? m = some kind → l'.kind? m = some kind)
    (has : l'.kind? (.text s) = some kind) (tag : v.tag = .ok kind) :
    (f.insert (.text s) v).Made l' where
  names := by rw [names_insert_text, h.names, Layout.names_snoc declared]
  distinct := by
    rw [names_insert_text]
    split
    · exact h.distinct
    · next missing =>
        refine List.nodup_append.2 ⟨h.distinct, by simp, fun n hn m hm eq => missing ?_⟩
        rw [List.mem_singleton.1 hm] at eq
        exact eq ▸ hn
  kinds b hb := by
    rcases mem_insert_text h.distinct hb with rfl | ⟨hb, other⟩
    · exact ⟨kind, has, tag⟩
    · obtain ⟨kind, has, tag⟩ := h.kinds b hb
      exact ⟨kind, keeps b.1 kind other has, tag⟩

/-- Parameters are bound one after the other. -/
theorem bindParams {params : List Node} {args : List Value} {done : List (Node × Value)}
    (hp : ∀ p ∈ params, p.IsParameter) (ha : ∀ a ∈ args, ∃ kind, a.tag = .ok kind)
    (h : f.Made ⟨done, []⟩) (bound : f.bindParams params args = .ok g) :
    g.Made ⟨done ++ params.zip args, []⟩ := by
  induction params generalizing args done f with
  | nil =>
      cases bound
      simpa using h
  | cons p params ih =>
      cases args with
      | nil =>
          cases bound
          simpa using h
      | cons a args =>
          obtain ⟨⟨s, typeName, rfl⟩, hparams⟩ := List.forall_mem_cons.1 hp
          obtain ⟨⟨kind, tag⟩, hargs⟩ := List.forall_mem_cons.1 ha
          let p := Node.funcParam (.text s) typeName
          have named : p.declaredName? = some (.text s) := rfl
          have kinds := Layout.kind?_param done p a
          have keeps (m : Name) (kind : Tag) (other : m ≠ .text s)
              (has : Layout.kind? ⟨done, []⟩ m = some kind) :
              Layout.kind? ⟨done ++ [(p, a)], []⟩ m = some kind := by
            rw [kinds, named, if_neg (fun eq => other (Option.some.inj eq).symm), has]
          have has : Layout.kind? ⟨done ++ [(p, a)], []⟩ (.text s) = some kind := by
            rw [kinds, if_pos named, tag]
            rfl
          have inserted := h.insert (Layout.declared_param done p a named) keeps has tag
          have made := ih hparams hargs inserted bound
          rwa [List.append_assoc] at made

/-- Variables are declared one after the other, behind the parameters. -/
theorem declare {params : List (Node × Value)} {vars done : List Node}
    (hd : ∀ d ∈ vars, d.IsVariable) (h : f.Made ⟨params, done⟩)
    (declared : f.declare vars = .ok g) : g.Made ⟨params, done ++ vars⟩ := by
  induction vars generalizing done f with
  | nil =>
      cases declared
      simpa using h
  | cons d vars ih =>
      obtain ⟨⟨typeName, s, rfl⟩, hvars⟩ := List.forall_mem_cons.1 hd
      let d := Node.varDecl (.text typeName) (.text s)
      have named : d.declaredName? = some (.text s) := rfl
      have snoc := Layout.declared_var params done d named
      have keeps (m : Name) (kind : Tag) (has : Layout.kind? ⟨params, done⟩ m = some kind) :
          Layout.kind? ⟨params, done ++ [d]⟩ m = some kind :=
        Layout.kind?_var_of_some params done d has
      rw [List.append_cons]
      obtain ⟨name, eq, declared⟩ := bind_eq_ok.1 declared
      cases eq
      cases found : f.get? (.text s) with
      | some old =>
          have same := h.again snoc keeps (by rw [found]; exact nofun)
          rw [found] at declared
          exact ih hvars same declared
      | none =>
          rw [found] at declared
          obtain ⟨v, initial, declared⟩ := bind_eq_ok.1 declared
          obtain ⟨t, type, initial⟩ := bind_eq_ok.1 initial
          have new : Name.text s ∉ Layout.declared ⟨params, done⟩ := by
            rw [← Layout.mem_names, ← h.names]
            exact get?_text.1 found
          have has : Layout.kind? ⟨params, done ++ [d]⟩ (.text s) = some t.tag := by
            rw [Layout.kind?_var_of_not_mem params done d named new, Node.declaredKind?, type]
            rfl
          have inserted := h.insert snoc (fun m kind _ => keeps m kind) has
            (DeclaredType.initial_tag initial)
          rw [insert_new found] at inserted
          exact ih hvars inserted declared

end Frame.Made

/-! ## Changing a frame -/

/-- Two values are of one kind. -/
def Value.Alike (v w : Value) : Prop := ∃ kind, v.tag = .ok kind ∧ w.tag = .ok kind

theorem Value.isRef_of_tag {v : Value} {kind : Tag} (h : v.tag = .ok kind) : v.isRef = false := by
  cases v with
  | ref => cases h
  | _ => rfl

theorem Value.Meets.isRef {S : Standard} {v : Value} (h : v.Meets S) : v.isRef = false := by
  obtain ⟨kind, tag⟩ := h.tag_eq
  exact isRef_of_tag tag

namespace Frame

variable {whole : Node} {l : Layout}

theorem Made.fits {f : Frame} (h : f.Made l) (whole : Node) : f.Fits whole l where
  names := h.names
  refs b hb ref := by
    obtain ⟨kind, -, tag⟩ := h.kinds b hb
    rw [Value.isRef_of_tag tag] at ref
    cases ref
  kinds b hb _ := h.kinds b hb

/-- A name may be bound to a value of the kind that it has, and a loop variable to anything. -/
theorem Fits.rebind {before after : Frame} {k : Name} {old new : Value}
    (h : Frame.Fits whole l (before ++ (k, old) :: after)) (may : whole.LoopVar k ∨ old.Alike new) :
    Frame.Fits whole l (before ++ (k, new) :: after) := by
  have there {b : Name × Value} (hb : b ∈ before ++ (k, new) :: after) :
      b ∈ before ++ (k, old) :: after ∨ b = (k, new) := by
    rcases List.mem_append.1 hb with hb | hb
    · exact .inl (List.mem_append_left _ hb)
    · rcases List.mem_cons.1 hb with rfl | hb
      · exact .inr rfl
      · exact .inl (List.mem_append_right _ (List.mem_cons_of_mem _ hb))
  refine ⟨?_, fun b hb ref => ?_, fun b hb no => ?_⟩
  · rw [← h.names]
    simp [Frame.names]
  · rcases there hb with hb | rfl
    · exact h.refs b hb ref
    · rcases may with var | ⟨kind, -, tag⟩
      · exact var
      · rw [Value.isRef_of_tag tag] at ref
        cases ref
  · rcases there hb with hb | rfl
    · exact h.kinds b hb no
    · obtain ⟨kind, was, tag⟩ := may.resolve_left no
      obtain ⟨kind', has, tag'⟩ := h.kinds (k, old) (by simp) no
      rw [was] at tag'
      cases tag'
      exact ⟨kind, has, tag⟩

end Frame

namespace Environment

variable {env env' : Environment}

theorem bound_of_set {n : Name} {v : Value} (h : env.set n v = .ok env') :
    ∃ old, env.get? n = some old := by
  unfold Environment.set Environment.scope? at h
  unfold Environment.get?
  cases inside : env.locals.get? n with
  | some old => exact ⟨old, rfl⟩
  | none =>
      cases outside : env.globals.get? n with
      | some old => exact ⟨old, rfl⟩
      | none =>
          rw [inside, outside] at h
          cases h

theorem Shaped.rebind {decls functions : List Node} {n : Name} {old new : Value}
    (h : env.Shaped decls functions) (rebinds : Rebinds n old new env env')
    (may : (Node.program decls functions).LoopVar n ∨ old.Alike new) :
    env'.Shaped decls functions := by
  cases rebinds with
  | inLocals key =>
      rw [← Node.LoopVar.congr key] at may
      cases h with
      | call known arity l g => exact .call known arity (l.rebind may) g
  | inGlobals _ key =>
      rw [← Node.LoopVar.congr key] at may
      cases h with
      | call known arity l g => exact .call known arity l (g.rebind may)

end Environment

namespace Reference

variable {env env' : Environment} {n : Name} {v : Value}

theorem checkAssignable_alike {a b : Value} (h : checkAssignable n a b = .ok ()) : a.Alike b := by
  obtain ⟨held, ha, h⟩ := bind_eq_ok.1 h
  obtain ⟨given, hb, h⟩ := bind_eq_ok.1 h
  refine ⟨held, ha, ?_⟩
  dsimp only at h
  split at h
  · cases ha
    rfl
  · replace h : (if held = given then pure () else throw (.fault (.unassignable n held given)) :
      Except Failure Unit) = .ok () := h
    split at h
    · next same => rw [hb, same]
    · cases h

theorem replaceElement_tag {room : Value.Room} {items : Array Value} {i : Int} {updated : Value}
    (h : replaceElement room items n i v = .ok updated) : updated.tag = .ok .array := by
  unfold replaceElement at h
  split at h
  · cases h
  · split at h
    · cases h
    · cases slots : setSlot room items i.toNat v with
      | error e =>
          rw [slots] at h
          cases h
      | ok items =>
          rw [slots] at h
          cases h
          rfl

theorem replaceHeld_tag {held updated : Value} {i : Int}
    (h : replaceHeld held n i v = .ok updated) :
    held.tag = .ok .array ∧ updated.tag = .ok .array := by
  obtain ⟨_, -, h⟩ := bind_eq_ok.1 h
  split at h
  · exact ⟨rfl, replaceElement_tag h⟩
  · cases h

/-- A write binds one name that is bound to a value: the name itself, or one at the end of its
    chain, which is bound to an array then and before. What holds of the name and of every array
    that is referred to holds of the one that is bound. -/
theorem storeFrom_cases {P : Name → Prop} {seen : List Name.Key} (start : P n)
    (along : ∀ m array i, env.get? m = some (.ref array i) → P array)
    (h : storeFrom env n v seen = .ok env') :
    ∃ root old new, P root ∧ env.get? root = some old ∧ old.isRef = false ∧
      env.set root new = .ok env' ∧
      (root = n ∧ new = v ∨ old.tag = .ok .array ∧ new.tag = .ok .array) := by
  fun_induction storeFrom env n v seen with
  | case1 => cases h
  | case2 => cases h
  | case3 n v seen array i bound fresh _ updated replaced ih =>
      obtain ⟨root, old, new, holds, ends, plain, set, which⟩ := ih (along n array i bound) h
      obtain ⟨held, found, replaced⟩ := bind_eq_ok.1 replaced
      obtain ⟨was, is⟩ := replaceHeld_tag replaced
      refine ⟨root, old, new, holds, ends, plain, set, .inr ?_⟩
      rcases which with ⟨rfl, rfl⟩ | arrays
      · rw [resolve, resolveFrom_plain ends plain] at found
        cases found
        exact ⟨was, is⟩
      · exact arrays
  | case4 => cases h
  | case5 n v seen held notRef bound =>
      refine ⟨n, held, v, start, bound, ?_, h, .inl ⟨rfl, rfl⟩⟩
      cases held with
      | ref array i => exact (notRef array i rfl).elim
      | _ => rfl

/-- A write of a value binds some name to a value, never to a reference. -/
theorem store_sets {P : Name → Prop} (start : P n)
    (along : ∀ m array i, env.get? m = some (.ref array i) → P array) (plain : v.isRef = false)
    (stored : store env n v = .ok env') :
    ∃ root new, P root ∧ new.isRef = false ∧ env.set root new = .ok env' := by
  obtain ⟨root, old, new, holds, -, -, set, which⟩ := storeFrom_cases start along stored
  refine ⟨root, new, holds, ?_, set⟩
  rcases which with ⟨-, rfl⟩ | ⟨-, tag⟩
  · exact plain
  · exact Value.isRef_of_tag tag

/-- Writing a value of the kind that a name has changes no kind. -/
theorem store_rebinds {held : Value} (found : resolve env n = .ok held) (alike : held.Alike v)
    (stored : store env n v = .ok env') :
    ∃ root old new, Environment.Rebinds root old new env env' ∧ old.Alike new := by
  obtain ⟨root, old, new, -, bound, plain, set, which⟩ :=
    storeFrom_cases (P := fun _ => True) trivial (fun _ _ _ _ => trivial) stored
  refine ⟨root, old, new, Environment.set_rebinds bound set, ?_⟩
  rcases which with ⟨rfl, rfl⟩ | ⟨was, is⟩
  · rw [resolve, resolveFrom_plain bound plain] at found
    cases found
    exact alike
  · exact ⟨.array, was, is⟩

end Reference

/-! ## Runs -/

/-- The layer of environments whose frames have their shape. -/
def shapes (decls functions : List Node) : Layer where
  env := Environment.Shaped decls functions
  globals := Frame.Fits (.program decls functions) ⟨[], decls⟩
  node := (Node.program decls functions).Contains
  function f := f ∈ functions

theorem shapes_kept {S : Standard} {decls functions : List Node}
    (wf : ∀ f ∈ functions, f.Function S) : (shapes decls functions).Kept (typed S) where
  parts _ inside _ member := .part inside member
  body f params vars body known st member := by
    have function : st ∈ (Node.funcDecl f params vars body).parts :=
      List.mem_append_right _ member
    exact .part (.part .self (List.mem_append_right _ known)) function
  globals _ h := by
    cases h with | call _ _ _ g => exact g
  withGlobals _ _ h hg := by
    cases h with | call known arity l _ => exact .call known arity l hg
  assignName _ _ _ _ _ _ _ _ _ _ _ h found assignable _ stored := by
    have alike := Reference.checkAssignable_alike assignable
    obtain ⟨root, old, new, rebinds, alike⟩ := Reference.store_rebinds found alike stored
    exact h.rebind rebinds (.inr alike)
  assignIndex _ _ _ _ _ _ _ _ items _ _ updated _ _ _ h found replaced _ stored := by
    have alike : (Value.array items).Alike updated :=
      ⟨.array, rfl, Reference.replaceElement_tag replaced⟩
    obtain ⟨root, old, new, rebinds, alike⟩ := Reference.store_rebinds found alike stored
    exact h.rebind rebinds (.inr alike)
  bindElement _ j k body _ _ var _ _ _ inside named _ _ _ h _ set := by
    obtain ⟨old, bound⟩ := Environment.bound_of_set set
    have loopVar : (Node.program decls functions).LoopVar var :=
      ⟨j, k, body, var, inside, named, rfl⟩
    exact h.rebind (Environment.set_rebinds bound set) (.inl loopVar)
  activate f params vars body vs g locals known len each hg made := by
    have classified : ∀ v ∈ vs, ∃ kind, v.tag = .ok kind := by
      intro v hv
      cases each v hv <;> exact ⟨_, rfl⟩
    obtain ⟨bound, binds, declares⟩ := bind_eq_ok.1 made
    cases wf _ known with
    | funcDecl _ p d _ =>
        have made := (Frame.Made.nil.bindParams p classified binds).declare d declares
        exact .call known len (made.fits _) hg

/-- In every environment that a run of a well-formed program reaches, the globals are the declared
    ones and the locals are the parameters and the variables of the function that is called, each at
    its first place. Only loop variables are bound to references, and every other name has a value
    of the kind that it was given when its frame was made. That holds however the run ends and
    whatever was run before it. -/
theorem run_frames (options : Options) (remains : Remains) (earlier : List (Nat × Node))
    (fuel : Nat) {S : Standard} {decls functions : List Node}
    (wf : (Node.program decls functions).WellFormed S) :
    ∀ e ∈ (((Session.new options remains).afterRuns earlier).run fuel
      (.program decls functions)).2.studio.events, e.Shaped decls functions := by
  cases wf with
  | program d f =>
      have globals (g : Frame) (declared : Frame.declare [] decls = .ok g) :
          (shapes decls functions).globals g :=
        (Frame.Made.nil.declare d declared).fits _
      intro e member
      have shaped := Node.WellFormed.run_keeps_layer (.program d f) (shapes_kept f)
        (fun _ known => known) globals options remains earlier fuel e member
      cases e <;> exact shaped

/-- A function with a repeated parameter, called while a global runs over the elements of an array
    that has grown. -/
theorem run_frames_scale : ∃ decls functions,
    decls = [Node.varDecl (.text "int[]") (.text "a"), .varDecl (.text "int") (.text "x")] ∧
    functions =
      [Node.funcDecl (.text "scale")
        [.funcParam (.text "k") (.text "int"), .funcParam (.text "k") (.text "int")]
        [.varDecl (.text "double") (.text "k")]
        [.exprStmt (.assign (.ident (.text "k"))
          (.binaryOp (.text "*") (.ident (.text "k")) (.ident (.text "x")))),
         .returnStmt (.ident (.text "k"))],
       .funcDecl (.text "main") [] [.varDecl (.text "int") (.text "i")]
        [.exprStmt (.assign (.index (.text "a") [.literal (.plain (.int 1)) (.text "int")])
          (.literal (.plain (.int 3)) (.text "int"))),
         .loopStmt (.text "x") (.text "a") (.exprStmt (.assign (.ident (.text "x"))
           (.call (.text "scale") [.ident (.text "i"), .ident (.text "x")]))),
         .returnStmt (.ident (.text "a"))]] ∧
    (Node.program decls functions).WellFormed .loose ∧
    (((Session.new {}).run 20 (.program decls functions)).1 matches .done (.array _)) ∧
    ∀ e ∈ ((Session.new {}).run 20 (.program decls functions)).2.studio.events,
      e.Shaped decls functions := by
  refine ⟨_, _, rfl, rfl, ?wf, by decide +kernel, run_frames {} {} [] 20 ?wf⟩
  have var (t n : String) : (Node.varDecl (.text t) (.text n)).IsVariable := ⟨t, n, rfl⟩
  have param (n t : String) : (Node.funcParam (.text n) (.text t)).IsParameter := ⟨n, .text t, rfl⟩
  refine .program (by simp [var]) (List.forall_mem_cons.2 ⟨.funcDecl _ (by simp [param])
    (by simp [var]) ?scale, List.forall_mem_singleton.2 (.funcDecl _ (by simp) (by simp [var])
    ?main)⟩)
  case scale =>
    simp only [List.forall_mem_cons, List.not_mem_nil, false_implies, implies_true, and_true]
    refine ⟨.exprStmt (.assign (.ident _) ?_), .returnStmt (List.forall_mem_singleton.2 (.ident _))⟩
    exact .binaryOp _ (.ident _) (.ident _)
  case main =>
    simp only [List.forall_mem_cons, List.not_mem_nil, false_implies, implies_true, and_true]
    refine ⟨.exprStmt (.assign (.index _ ?_) ?_), .loopStmt _ _ (.exprStmt (.assign (.ident _) ?_)),
      .returnStmt (List.forall_mem_singleton.2 (.ident _))⟩
    · exact List.forall_mem_singleton.2 (.literal (.int (by decide)))
    · exact .literal (.int (by decide))
    · exact .call _ (List.forall_mem_cons.2 ⟨.ident _, List.forall_mem_singleton.2 (.ident _)⟩)

end Cadence
