/-
  Layers over an invariant.

  A `Layer` says what the environments of a run keep to besides an invariant that is known to be
  kept. Few rules change an environment: assignments, loops over an array and calls. A layer that
  these leave true (`Layer.Kept`) is kept by every run along with the invariant (`atop_kept`), so it
  holds of every environment that a run reaches (`Layer.run_keeps`).
-/
import Cadence.Proofs.Soundness

namespace Cadence

variable {ι α β : Type} {I : Invariant ι}

/-! ## Where the parts of a node stand -/

namespace Node

/-- What is evaluated along with a node stands in it, an index of a target inside the target. -/
theorem mem_expressions {n p : Node} (h : p ∈ n.expressions) :
    p ∈ n.parts ∨ ∃ q ∈ n.parts, p ∈ q.parts := by
  cases n with
  | assign target value =>
      cases target with
      | index array indices =>
          rcases List.mem_cons.1 h with rfl | h
          · exact .inl (by simp [parts])
          · exact .inr ⟨.index array indices, by simp [parts], h⟩
      | _ => exact .inl (List.mem_cons_of_mem _ h)
  | forStmt | returnStmt =>
      have given := (List.mem_filter.1 h).1
      simp only [parts]
      grind
  | ifStmt | whileStmt =>
      rw [List.mem_singleton.1 h]
      exact .inl List.mem_cons_self
  | arrayLit | index | binaryOp | unaryOp | call | exprStmt => exact .inl h
  | _ => exact nomatch h

/-- What is executed along with a node stands in it. -/
theorem mem_statements {n p : Node} (h : p ∈ n.statements) : p ∈ n.parts := by
  cases n with
  | ifStmt condition thenBranch elseBranch =>
      rcases List.mem_cons.1 h with rfl | h
      · simp [parts]
      · exact List.mem_cons_of_mem _ (List.mem_cons_of_mem _ (List.mem_filter.1 h).1)
  | whileStmt | forStmt | loopStmt =>
      rw [List.mem_singleton.1 h]
      simp [parts]
  | block => exact h
  | _ => exact nomatch h

end Node

/-! ## Computations that note nothing -/

/-- A computation that leaves the functions and what has happened as they are. -/
def Act.Quiet (x : Act α) : Prop :=
  ∀ s, (x s).2.functions = s.functions ∧ (x s).2.history = s.history

namespace Act.Quiet

theorem pure (a : α) : Quiet (pure a) := fun _ => ⟨rfl, rfl⟩

theorem lift (r : Except Failure α) : Quiet (Act.lift r) := by
  intro s
  cases r <;> exact ⟨rfl, rfl⟩

theorem bind {x : Act α} {f : α → Act β} (hx : Quiet x) (hf : ∀ a, Quiet (f a)) :
    Quiet (x >>= f) := by
  intro s
  have first := hx s
  show (Act.bind x f s).2.functions = _ ∧ (Act.bind x f s).2.history = _
  unfold Act.bind
  rcases e : x s with ⟨a | e | _, t⟩ <;> rw [e] at first
  · have second := hf a t
    exact ⟨second.1.trans first.1, second.2.trans first.2⟩
  · exact first
  · exact first

theorem mixdown (room : Value.Room) (args : List Value) : Quiet (Act.mixdown room args) := by
  intro s
  unfold Act.mixdown
  rcases s.track.mixdown room args with ⟨_ | _, _⟩ <;> exact ⟨rfl, rfl⟩

theorem setTempo (n : Int) : Quiet (Act.setTempo n) := by
  intro s
  unfold Act.setTempo
  cases s.track.setTempo n <;> exact ⟨rfl, rfl⟩

theorem call (room : Value.Room) (b : Builtin) (args : List Value) : Quiet (b.call room args) := by
  cases b with
  | print =>
      refine (lift _).bind fun v => (lift _).bind fun text => ?_
      exact bind (fun _ => ⟨rfl, rfl⟩) fun _ => pure _
  | getAmplitude | getDuration | length => exact (lift _).bind fun _ => pure _
  | getPitches | setAmplitude | setDuration | setPitches => exact lift _
  | randomInt | randomDouble =>
      exact (lift _).bind fun _ => bind (fun _ => ⟨rfl, rfl⟩) fun _ => pure _
  | bpm => exact (lift _).bind fun n => (setTempo n).bind fun _ => pure _
  | mixdown => exact (mixdown room args).bind fun _ => pure _

end Act.Quiet

/-! ## Layers -/

/-- What environments keep to besides an invariant. -/
structure Layer where
  env : Environment → Prop
  globals : Frame → Prop
  /-- The nodes that are evaluated or executed. -/
  node : Node → Prop
  /-- The functions that can be called. -/
  function : Node → Prop

namespace Layer

variable {L : Layer}

def event (L : Layer) : Event → Prop
  | .reached env | .yielded _ env => L.env env
  | .returned _ globals => L.globals globals
  | .called .. | .performed .. => True

/-- The layer has been kept so far, and only functions that it knows can be called. -/
structure Holds (L : Layer) (s : Studio) : Prop where
  functions : ∀ entry ∈ s.functions, L.function entry.2
  events : ∀ e ∈ s.events, L.event e

/-- An invariant with a layer over it. -/
def atop (L : Layer) (I : Invariant ι) : Invariant ι where
  value := I.value
  env i env := I.env i env ∧ L.env env
  globals g := I.globals g ∧ L.globals g
  expr i n := I.expr i n ∧ L.node n
  stmt i n := I.stmt i n ∧ L.node n
  studio s := I.studio s ∧ L.Holds s
  failed e s := I.failed e s ∧ ∀ d ∈ s.events, L.event d
  cut s := I.cut s ∧ ∀ d ∈ s.events, L.event d

/-- The layer is left true by whatever a rule does to an environment that keeps to it and to the
    invariant. -/
structure Kept (L : Layer) (I : Invariant ι) : Prop where
  parts : ∀ n, L.node n → ∀ p ∈ n.parts, L.node p
  body : ∀ f params decls body, L.function (.funcDecl f params decls body) →
    ∀ st ∈ body, L.node st
  globals : ∀ env, L.env env → L.globals env.globals
  withGlobals : ∀ env g, L.env env → L.globals g → L.env (env.withGlobals g)
  assignName : ∀ i j e env env' name held v, L.node (.assign (.ident j) e) →
    Operator.nameOf j = .ok name → I.env i env → L.env env →
    Reference.resolve env name = .ok held → Reference.checkAssignable name held v = .ok () →
    I.value v → Reference.store env name v = .ok env' → L.env env'
  assignIndex : ∀ i room j ns e env env' name items index v updated,
    L.node (.assign (.index j ns) e) → Operator.nameOf j = .ok name → I.env i env → L.env env →
    Reference.resolve env name = .ok (.array items) →
    Reference.replaceElement room items name index v = .ok updated → I.value updated →
    Reference.store env name updated = .ok env' → L.env env'
  bindElement : ∀ i j k body env env' var array index, I.stmt i (.loopStmt j k body) →
    L.node (.loopStmt j k body) → Operator.nameOf j = .ok var → Operator.nameOf k = .ok array →
    I.HasArray i array → I.env i env → L.env env → 0 ≤ index →
    env.set var (.ref array index) = .ok env' → L.env env'
  activate : ∀ f params decls body vs g locals, L.function (.funcDecl f params decls body) →
    vs.length = params.length → (∀ v ∈ vs, I.value v) → L.globals g →
    (Frame.bindParams [] params vs >>= fun bound => bound.declare decls) = .ok locals →
    let activation := .of (some { function := .funcDecl f params decls body, args := vs })
    L.env { locals, globals := g, activation }

namespace Holds

variable {s t : Studio}

theorem of_eq (h : L.Holds s) (functions : t.functions = s.functions)
    (history : t.history = s.history) : L.Holds t := by
  have events : t.events = s.events := congrArg Ghost.get history
  exact ⟨functions ▸ h.functions, events ▸ h.events⟩

theorem noted (h : L.Holds s) {e : Event} (he : L.event e) : L.Holds (s.noted e) := by
  refine ⟨h.functions, ?_⟩
  rw [Studio.events_noted]
  exact List.forall_mem_append.2 ⟨h.events, List.forall_mem_singleton.2 he⟩

theorem debugged (h : L.Holds s) (text : String) : L.Holds (s.debug text) := by
  unfold Studio.debug
  split <;> exact h.of_eq rfl rfl

theorem performed (h : L.Holds s) (room : Value.Room) (b : Builtin) (args : List Value) :
    L.Holds (b.perform room args s).2 := by
  have quiet := Act.Quiet.call room b args (s.noted (.performed b args))
  have noted : L.Holds (s.noted (.performed b args)) := h.noted trivial
  exact noted.of_eq quiet.1 quiet.2

theorem cleared (s : Studio) : L.Holds (Session.cleared s) := by
  have events : (Session.cleared s).events = [] := Ghost.get_of _
  exact ⟨(fun _ h => nomatch h), by simp [events]⟩

end Holds

theorem atop_allows {r : Except Failure α} {Q : α → Prop} (h : I.Allows r Q) :
    (L.atop I).Allows r Q :=
  h.weaken fun _ failed s hs => ⟨failed s hs.1, hs.2.events⟩

/-- A result that the invariant is kept by keeps the layer too if every value of it does. -/
theorem atop_allows_and {r : Except Failure α} {Q R : α → Prop} (h : I.Allows r Q)
    (also : ∀ a, r = .ok a → R a) : (L.atop I).Allows r fun a => Q a ∧ R a :=
  atop_allows (h.mono fun a eq q => ⟨q, also a eq⟩)

/-- What holds of the parts of a node holds of whatever is evaluated along with it. -/
theorem Kept.expressions (h : L.Kept I) {n : Node} (hn : L.node n) :
    ∀ p ∈ n.expressions, L.node p := by
  intro p hp
  rcases Node.mem_expressions hp with hp | ⟨q, hq, hp⟩
  · exact h.parts n hn p hp
  · exact h.parts q (h.parts n hn q hq) p hp

/-- A layer that is kept over an invariant that is kept. -/
theorem atop_kept (hL : L.Kept I) {ctx : Context} (hI : I.Kept ctx)
    (table : ∀ entry ∈ ctx.functions, L.function entry.2) : (L.atop I).Kept ctx where
  fault f s hs := ⟨hI.fault f s hs.1, hs.2.events⟩
  cut s hs := ⟨hI.cut s hs.1, hs.2.events⟩
  noted e s admitted hs := by
    cases e with
    | reached env =>
        obtain ⟨i, h, he⟩ := admitted
        exact ⟨hI.noted _ s ⟨i, h⟩ hs.1, hs.2.noted he⟩
    | yielded v env =>
        obtain ⟨hv, i, h, he⟩ := admitted
        exact ⟨hI.noted _ s ⟨hv, i, h⟩ hs.1, hs.2.noted he⟩
    | returned v globals =>
        obtain ⟨hv, h, hg⟩ := admitted
        exact ⟨hI.noted _ s ⟨hv, h⟩ hs.1, hs.2.noted hg⟩
    | called f args => exact ⟨hI.noted _ s admitted hs.1, hs.2.noted trivial⟩
    | performed => exact admitted.elim
  debugged pos text s hs := ⟨hI.debugged pos text s hs.1, hs.2.debugged text⟩
  depth d s hs := ⟨hI.depth d s hs.1, hs.2.of_eq rfl rfl⟩
  depth_failed d e s h := ⟨hI.depth_failed d e s h.1, h.2⟩
  depth_cut d s h := ⟨hI.depth_cut d s h.1, h.2⟩
  expressions i n h p hp := by
    rcases h with ⟨h, hn⟩ | ⟨h, hn⟩
    · exact ⟨hI.expressions i n (.inl h) p hp, hL.expressions hn p hp⟩
    · exact ⟨hI.expressions i n (.inr h) p hp, hL.expressions hn p hp⟩
  statements i n h p hp := ⟨hI.statements i n h.1 p hp, hL.parts n h.2 p (Node.mem_statements hp)⟩
  lookups i n h j hj := atop_allows (hI.lookups i n (h.imp And.left And.left) j hj)
  notExpression i n h no s hs := ⟨hI.notExpression i n h.1 no s hs.1, hs.2.events⟩
  notStatement i n h no s hs := ⟨hI.notStatement i n h.1 no s hs.1, hs.2.events⟩
  falsity := hI.falsity
  tag v hv := atop_allows (hI.tag v hv)
  text v hv := atop_allows (hI.text v hv)
  texts vs hvs := atop_allows (hI.texts vs hvs)
  literal i c k h := atop_allows (hI.literal i c k h.1)
  arrayLit i ns vs h len each := atop_allows (hI.arrayLit i ns vs h.1 len each)
  binary i op l r a b h ha hb := atop_allows (hI.binary i op l r a b h.1 ha hb)
  unary i op o a h ha := atop_allows (hI.unary i op o a h.1 ha)
  element v name index hv := atop_allows (hI.element v name index hv)
  globals i env h := ⟨hI.globals i env h.1, hL.globals env h.2⟩
  withGlobals i env g h hg := ⟨hI.withGlobals i env g h.1 hg.1, hL.withGlobals env g h.2 hg.2⟩
  resolve i env name h := atop_allows (hI.resolve i env name h.1)
  checkAssignable name a b ha hb := atop_allows (hI.checkAssignable name a b ha hb)
  assignName i j e env name held v hn named h found fits hv :=
    atop_allows_and (hI.assignName i j e env name held v hn.1 named h.1 found fits hv)
      fun env' eq => hL.assignName i j e env env' name held v hn.2 named h.1 h.2 found fits hv eq
  replaceElement items name index v h hv :=
    atop_allows (hI.replaceElement items name index v h hv)
  assignIndex i j ns e env name items index v updated hn named h found eq hv :=
    atop_allows_and (hI.assignIndex i j ns e env name items index v updated hn.1 named h.1 found
      eq hv) fun env' stored => hL.assignIndex i ctx.nesting j ns e env env' name items index v
        updated hn.2 named h.1 h.2 found eq hv stored
  bindElement i j k body env var array index hn named named' has h nonneg := by
    obtain ⟨start, items, hs, found⟩ := has
    have has : I.HasArray i array := ⟨start, items, hs.1, found⟩
    exact atop_allows_and (hI.bindElement i j k body env var array index hn.1 named named' has h.1
      nonneg) fun env' eq => hL.bindElement i j k body env env' var array index hn.1 hn.2 named
        named' has h.1 h.2 nonneg eq
  perform b vs each arity s hs := by
    have kept := hI.perform b vs each arity s hs.1
    have holds := hs.2.performed ctx.room b vs
    rcases e : b.perform ctx.room vs s with ⟨v | e | _, t⟩ <;> rw [e] at kept holds
    · exact ⟨kept.1, kept.2, holds⟩
    · exact ⟨kept, holds.events⟩
    · exact ⟨kept, holds.events⟩
  activate name f params decls body vs g found len each hg := by
    obtain ⟨entry, member, eq⟩ := typed.mem_of_get? found
    have function : L.function (.funcDecl f params decls body) := eq ▸ table entry member
    refine atop_allows ((hI.activate name f params decls body vs g found len each hg.1).mono ?_)
    rintro locals built ⟨i, h, stmts⟩
    have env := hL.activate f params decls body vs g locals function len each hg.2 built
    exact ⟨i, ⟨h, env⟩, fun st hst => ⟨stmts st hst, hL.body f params decls body function st hst⟩⟩
  notFunction name n found no s hs := ⟨hI.notFunction name n found no s hs.1, hs.2.events⟩

theorem atop_launched (hL : L.Kept I) {options : Options} {decls functions : List Node}
    (hI : I.Launched options decls functions) (known : ∀ f ∈ functions, L.function f)
    (globals : ∀ g, Frame.declare [] decls = .ok g → L.globals g) :
    (L.atop I).Launched options decls functions where
  named f hf := atop_allows (hI.named f hf)
  declared f hf name s hs :=
    ⟨hI.declared f hf name s hs.1, typed.forall_insert hs.2.functions (known f hf), hs.2.events⟩
  globals := atop_allows_and hI.globals globals
  kept s hs := atop_kept hL (hI.kept s hs.1) hs.2.functions

end Layer

/-! ## Runs -/

/-- In a run of a program for which an invariant is kept, every environment that is reached keeps to
    a layer that the rules of the language leave true over it, however the run ends and whatever was
    run before it. -/
theorem Layer.run_keeps {L : Layer} {decls functions : List Node} (kept : L.Kept I)
    (launched : ∀ options, I.Launched options decls functions)
    (cleared : ∀ s, I.studio (Session.cleared s)) (known : ∀ f ∈ functions, L.function f)
    (globals : ∀ g, Frame.declare [] decls = .ok g → L.globals g)
    (options : Options) (remains : Remains) (earlier : List (Nat × Node)) (fuel : Nat) :
    ∀ e ∈ (((Session.new options remains).afterRuns earlier).run fuel
      (.program decls functions)).2.studio.events, L.event e := by
  have same : ((Session.new options remains).afterRuns earlier).options = options :=
    Session.options_afterRuns earlier _
  by_cases ok : options.Accepted
  · generalize (Session.new options remains).afterRuns earlier = session at same ⊢
    have launched : (L.atop I).Launched session.options decls functions :=
      atop_launched kept (launched _) known globals
    have ends := launched.run_ends (same.symm ▸ ok) fuel ⟨cleared _, Holds.cleared _⟩
    rcases r : session.run fuel (.program decls functions) with ⟨v | e | _, after⟩ <;>
      rw [r] at ends
    · obtain ⟨-, t, ht, eq⟩ := ends
      rw [eq]
      exact ht.2.events
    · obtain ⟨t, ht, eq⟩ := ends
      have events : after.studio.events = t.events := by
        rw [eq]
        exact Session.events_abort session.options e t
      rw [events]
      exact ht.2
    · exact ends.2
  · have fresh : (Session.new options remains).studio.events = [] := Ghost.get_of _
    have none := Session.events_afterRuns earlier (Session.new options remains) ok fresh
    rw [Session.events_run_of_not_accepted (same.symm ▸ ok), none]
    simp

/-- The same over what is known of the runs of well-formed programs. -/
theorem Node.WellFormed.run_keeps_layer {S : Standard} {decls functions : List Node}
    (wf : (Node.program decls functions).WellFormed S) {L : Layer} (kept : L.Kept (typed S))
    (known : ∀ f ∈ functions, L.function f)
    (globals : ∀ g, Frame.declare [] decls = .ok g → L.globals g)
    (options : Options) (remains : Remains) (earlier : List (Nat × Node)) (fuel : Nat) :
    ∀ e ∈ (((Session.new options remains).afterRuns earlier).run fuel
      (.program decls functions)).2.studio.events, L.event e := by
  cases wf with
  | program d f =>
      exact Layer.run_keeps kept (fun _ => typed.launched d f) Orderly.cleared known globals options
        remains earlier fuel

end Cadence
