/-
  Reading declared names.

  A name that is in neither frame cannot be read. A name that is declared may be bound to a
  reference, and then it is read by way of the array that the reference names, which is looked up
  where the name is read and not where the reference was made. A global can run over an array that
  is local to one function, and be read in another that does not have the array
  (`declared_read_fails`). `run_undeclared_reads` says that no name that is declared is lost in any
  other way, in any environment that a run of a well-formed program reaches.

  What the variable of a loop refers to is declared in the function that has the loop, or for all
  functions (`Environment.Anchored`). To tell, an invariant has to say which function the nodes are
  of that are executed (`Invariant.located`).
-/
import Cadence.Proofs.WriteSet

namespace Cadence

/-! ## References that lead nowhere -/

namespace Reference

variable {env : Environment} {n m : Name}

/-- The references from a name lead to one that is in neither frame. -/
inductive Misses (env : Environment) : Name → Name → Prop
  | here {n : Name} (missing : env.get? n = none) : Misses env n n
  | ref {n array m : Name} {i : Int} (bound : env.get? n = some (.ref array i))
      (rest : Misses env array m) : Misses env n m

namespace Misses

theorem distance (h : Misses env n m) : ∃ d, Distance env n d := by
  induction h with
  | here missing =>
      refine ⟨0, .stop fun array i eq => ?_⟩
      rw [missing] at eq
      cases eq
  | ref bound _ ih =>
      obtain ⟨d, rest⟩ := ih
      exact ⟨d + 1, .ref bound rest⟩

theorem resolveFrom_eq (h : Misses env n m) {d : Nat} (far : Distance env n d)
    {seen : List Name.Key} (passed : Passed env d seen) :
    resolveFrom env n seen = Environment.undeclared m := by
  induction h generalizing d seen with
  | here missing => exact resolveFrom_missing missing seen
  | ref bound _ ih =>
      cases far with
      | stop no => exact absurd bound (no _ _)
      | ref bound' rest =>
          have further := Distance.ref bound' rest
          rw [resolveFrom_ref bound (further.fresh passed)]
          rw [bound] at bound'
          cases bound'
          rw [ih rest (further.passed_cons passed)]
          rfl

theorem of_resolveFrom {seen : List Name.Key}
    (h : resolveFrom env n seen = .error (.fault (.undeclared m))) : Misses env n m := by
  fun_induction resolveFrom env n seen with
  | case1 n seen missing =>
      cases h
      exact .here missing
  | case2 => cases h
  | case3 n seen array i bound fresh _ held found ih =>
      unfold elementAt at h
      split at h
      · split at h <;> cases h
      · cases h
  | case4 n seen array i bound fresh _ e failed ih =>
      cases h
      exact .ref bound (ih failed)
  | case5 => cases h

/-- A name cannot be found in just this way. -/
theorem resolve_iff :
    resolve env n = .error (.fault (.undeclared m)) ↔ Misses env n m := by
  refine ⟨of_resolveFrom, fun h => ?_⟩
  obtain ⟨d, far⟩ := h.distance
  exact h.resolveFrom_eq far fun _ member => nomatch member

/-- The name at the end is the first one, or some name is bound to a reference to it. -/
theorem end_cases (h : Misses env n m) :
    env.get? m = none ∧ (m = n ∨ ∃ k i, env.get? k = some (.ref m i)) := by
  induction h with
  | here missing => exact ⟨missing, .inl rfl⟩
  | @ref n _ _ i bound _ ih =>
      obtain ⟨missing, rfl | linked⟩ := ih
      · exact ⟨missing, .inr ⟨n, i, bound⟩⟩
      · exact ⟨missing, .inr linked⟩

end Misses

end Reference

/-- How an identifier is read. -/
theorem Context.evaluate_ident {ctx : Context} {level : Nat} (entered : ctx.enter level = pure ())
    (fuel : Nat) (n : String) (env : Environment) (s : Studio) {e : Failure} :
    (ctx.evaluate (fuel + 1) level (.ident (.text n)) env s).1 = .failed e ↔
      Reference.resolve env (.text n) = .error e := by
  have node (m : Machine) : Machine.evaluateNode ctx m (.ident (.text n)) env =
      Act.lift (Reference.resolve env (.text n)) >>= fun v => pure (v, env) := rfl
  rw [Context.evaluate, entered, node]
  cases Reference.resolve env (.text n) with
  | ok v =>
      constructor
      · intro h
        cases h
      · intro h
        cases h
  | error f =>
      constructor
      · intro h
        cases h
        rfl
      · intro h
        cases h
        rfl

/-! ## Declarations -/

namespace Node

/-- The declarations of the names of a frame: those of a program for the globals, and those of a
    function for the locals of a call. -/
def declarations : Node → List Node
  | .program decls _ => decls
  | .funcDecl _ params vars _ => params ++ vars
  | _ => []

def Declares (n : Node) (name : Name) : Prop :=
  ∃ d ∈ n.declarations, ∃ k, d.declaredName? = some k ∧ k.key = name.key

/-- Some function has a loop with the variable `g` over an array `m` of its own, and the variable is
    not its own. -/
def Strays (functions : List Node) (g m : Name) : Prop :=
  ∃ f ∈ functions, ∃ var array body v, f.Contains (.loopStmt var array body) ∧
    Operator.nameOf var = .ok v ∧ v.key = g.key ∧ Operator.nameOf array = .ok m ∧
    f.Declares m ∧ ¬ f.Declares g

end Node

namespace Frame

theorem isSome_get? {f : Frame} {name : Name} :
    (f.get? name).isSome ↔ ∃ k ∈ f.names, k.key = name.key := by
  induction f with
  | nil => simp [get?, names]
  | cons b rest ih =>
      obtain ⟨k, v⟩ := b
      rw [get?, show Frame.names ((k, v) :: rest) = k :: Frame.names rest from rfl]
      by_cases here : k.key = name.key
      · simp [Name.same_iff.2 here, here]
      · rw [if_neg (mt Name.same_iff.1 here), ih]
        simp [here]

/-- A frame has the names that are declared for it. -/
theorem Fits.isSome_get? {whole n : Node} {l : Layout} {f : Frame} (h : f.Fits whole l)
    (layout : l.params.map Prod.fst ++ l.vars = n.declarations) (name : Name) :
    (f.get? name).isSome ↔ n.Declares name := by
  rw [Frame.isSome_get?, h.names, Node.Declares, ← layout]
  simp only [Layout.mem_names, Layout.declared, List.mem_filterMap]
  grind

/-- Whatever a name in the frame refers to is related to it. -/
def Refers (P : Name → Name → Prop) (f : Frame) : Prop :=
  ∀ y m i, f.get? y = some (.ref m i) → P y m

variable {P : Name → Name → Prop} {f : Frame}

theorem Refers.insert (h : f.Refers P) {n : Name} {v : Value}
    (new : ∀ y m i, y.key = n.key → v = .ref m i → P y m) : (f.insert n v).Refers P := by
  intro y m i bound
  rw [get?_insert] at bound
  split at bound
  · next same => exact new y m i same (Option.some.inj bound)
  · exact h y m i bound

theorem Starts.refers {l : Layout} (h : f.Starts l) (args : ∀ p ∈ l.params, p.2.isRef = false) :
    f.Refers P := by
  intro y m i bound
  cases h.plain args bound

end Frame

/-! ## Which function is executed -/

theorem Ghost.of_inj {α : Type} {a b : α} (h : Ghost.of a = Ghost.of b) : a = b := by
  rw [← Ghost.get_of a, h, Ghost.get_of]

theorem Environment.set_activation {env env' : Environment} {n : Name} {v : Value}
    (set : env.set n v = .ok env') : env'.activation = env.activation := by
  unfold Environment.set at set
  split at set <;> cases set <;> rfl

theorem Reference.store_activation {env env' : Environment} {n : Name} {v : Value}
    (stored : Reference.store env n v = .ok env') : env'.activation = env.activation := by
  obtain ⟨_, _, _, -, -, -, set, -⟩ :=
    storeFrom_cases (P := fun _ => True) trivial (fun _ _ _ _ => trivial) stored
  exact Environment.set_activation set

namespace Invariant

variable {ι : Type} {I : Invariant ι}

/-- An invariant where every activation is that of a known call, and only nodes of the function that
    is called are evaluated and executed in it. -/
def located (I : Invariant ι) : Invariant (ι × Activation) where
  value := I.value
  env i env := I.env i.1 env ∧ env.activation = .of (some i.2)
  globals := I.globals
  expr i n := I.expr i.1 n ∧ i.2.function.Contains n
  stmt i n := I.stmt i.1 n ∧ i.2.function.Contains n
  studio := I.studio
  failed := I.failed
  cut := I.cut

theorem located_kept {ctx : Context} (h : I.Kept ctx) : I.located.Kept ctx where
  fault := h.fault
  cut := h.cut
  noted e s admitted hs := by
    refine h.noted e s ?_ hs
    cases e with
    | reached env =>
        obtain ⟨i, henv, -⟩ := admitted
        exact ⟨i.1, henv⟩
    | yielded v env =>
        obtain ⟨hv, i, henv, -⟩ := admitted
        exact ⟨hv, i.1, henv⟩
    | returned | called | performed => exact admitted
  debugged := h.debugged
  depth := h.depth
  depth_failed := h.depth_failed
  depth_cut := h.depth_cut
  expressions i n hn p hp := by
    have given : I.expr i.1 n ∨ I.stmt i.1 n := hn.imp And.left And.left
    have inside : i.2.function.Contains n := hn.elim And.right And.right
    refine ⟨h.expressions i.1 n given p hp, ?_⟩
    rcases Node.mem_expressions hp with hp | ⟨q, hq, hp⟩
    · exact .part inside hp
    · exact .part (.part inside hq) hp
  statements i n hn p hp :=
    ⟨h.statements i.1 n hn.1 p hp, .part hn.2 (Node.mem_statements hp)⟩
  lookups i n hn := h.lookups i.1 n (hn.imp And.left And.left)
  notExpression i n hn := h.notExpression i.1 n hn.1
  notStatement i n hn := h.notStatement i.1 n hn.1
  falsity := h.falsity
  tag := h.tag
  text := h.text
  texts := h.texts
  literal i c k hn := h.literal i.1 c k hn.1
  arrayLit i ns vs hn := h.arrayLit i.1 ns vs hn.1
  binary i op l r a b hn := h.binary i.1 op l r a b hn.1
  unary i op o a hn := h.unary i.1 op o a hn.1
  element := h.element
  globals i env henv := h.globals i.1 env henv.1
  withGlobals i env g henv hg := ⟨h.withGlobals i.1 env g henv.1 hg, henv.2⟩
  resolve i env name henv := h.resolve i.1 env name henv.1
  checkAssignable := h.checkAssignable
  assignName i j e env name held v hn named henv found fits hv :=
    (h.assignName i.1 j e env name held v hn.1 named henv.1 found fits hv).mono
      fun _ stored henv' => ⟨henv', (Reference.store_activation stored).trans henv.2⟩
  replaceElement := h.replaceElement
  assignIndex i j ns e env name items index v updated hn named henv found eq hv :=
    (h.assignIndex i.1 j ns e env name items index v updated hn.1 named henv.1 found eq hv).mono
      fun _ stored henv' => ⟨henv', (Reference.store_activation stored).trans henv.2⟩
  bindElement i j k body env var array index hn named named' has henv nonneg := by
    obtain ⟨start, items, hs, found⟩ := has
    have bound := h.bindElement i.1 j k body env var array index hn.1 named named'
      ⟨start, items, hs.1, found⟩ henv.1 nonneg
    exact bound.mono fun _ set henv' => ⟨henv', (Environment.set_activation set).trans henv.2⟩
  perform := h.perform
  activate name f params decls body vs g found len each hg := by
    refine (h.activate name f params decls body vs g found len each hg).mono ?_
    rintro locals - ⟨i, henv, stmts⟩
    refine ⟨(i, ⟨.funcDecl f params decls body, vs⟩), ⟨henv, rfl⟩, fun st hst => ?_⟩
    exact ⟨stmts st hst, .part .self (List.mem_append_right _ hst)⟩
  notFunction := h.notFunction

theorem located_launched {options : Options} {decls functions : List Node}
    (h : I.Launched options decls functions) : I.located.Launched options decls functions where
  named := h.named
  declared := h.declared
  globals := h.globals
  kept s hs := located_kept (h.kept s hs)

end Invariant

/-! ## Where references lead -/

namespace Environment

variable {decls functions : List Node} {env env' : Environment} {a : Activation}

namespace Shaped

theorem known (h : env.Shaped decls functions) (call : env.activation = .of (some a)) :
    a.function ∈ functions := by
  cases h with
  | call known =>
      cases Ghost.of_inj call
      exact known

theorem isSome_local (h : env.Shaped decls functions) (call : env.activation = .of (some a))
    (name : Name) : (env.locals.get? name).isSome ↔ a.function.Declares name := by
  cases h with
  | @call _ params vars _ args _ _ _ arity l _ =>
      cases Ghost.of_inj call
      refine l.isSome_get? ?_ name
      show (params.zip args).map Prod.fst ++ vars = params ++ vars
      rw [List.map_fst_zip (by omega)]

theorem isSome_global (h : env.Shaped decls functions) (name : Name) :
    (env.globals.get? name).isSome ↔ (Node.program decls functions).Declares name := by
  cases h with
  | call _ _ _ g => exact g.isSome_get? rfl name

theorem isSome_get? (h : env.Shaped decls functions) (call : env.activation = .of (some a))
    (name : Name) : (env.get? name).isSome ↔
      a.function.Declares name ∨ (Node.program decls functions).Declares name := by
  rw [← h.isSome_local call, ← h.isSome_global, Environment.get?, Option.isSome_or,
    Bool.or_eq_true]

end Shaped

/-- What a global refers to is a global, or a loop made it refer to an array that is local to some
    function. -/
def GlobalRefers (decls functions : List Node) (g m : Name) : Prop :=
  (Node.program decls functions).Declares m ∨ Node.Strays functions g m

/-- In an environment of a call, what a local refers to is declared in the function or a global. -/
structure Anchored (decls functions : List Node) (a : Activation) (env : Environment) : Prop where
  call : env.activation = .of (some a)
  locals : env.locals.Refers fun _ m =>
    a.function.Declares m ∨ (Node.program decls functions).Declares m
  globals : env.globals.Refers (GlobalRefers decls functions)

namespace Anchored

theorem set (h : env.Anchored decls functions a) {n : Name} {v : Value}
    (inside : ∀ m i, v = .ref m i →
      a.function.Declares m ∨ (Node.program decls functions).Declares m)
    (outside : env.locals.get? n = none → ∀ y m i, y.key = n.key → v = .ref m i →
      GlobalRefers decls functions y m)
    (set : env.set n v = .ok env') : env'.Anchored decls functions a := by
  obtain ⟨old, bound⟩ := bound_of_set set
  rcases get?_cases bound with bound | ⟨none, bound⟩
  · rw [set_local bound] at set
    cases set
    exact ⟨h.call, h.locals.insert fun _ m i _ => inside m i, h.globals⟩
  · rw [set_global none bound] at set
    cases set
    exact ⟨h.call, h.locals, h.globals.insert (outside none)⟩

theorem store (h : env.Anchored decls functions a) {n : Name} {v : Value} (plain : v.isRef = false)
    (stored : Reference.store env n v = .ok env') : env'.Anchored decls functions a := by
  obtain ⟨root, new, -, plain, set⟩ :=
    Reference.store_sets (P := fun _ => True) trivial (fun _ _ _ _ => trivial) plain stored
  have no (m : Name) (i : Int) : new ≠ .ref m i := by
    rintro rfl
    cases plain
  exact h.set (fun m i eq => absurd eq (no m i)) (fun _ _ m i _ eq => absurd eq (no m i)) set

/-- A name that is bound and cannot be read refers, in the end, to an array of another function. -/
theorem strays (h : env.Anchored decls functions a) (shaped : env.Shaped decls functions)
    {n m : Name} (misses : Reference.Misses env n m) (bound : (env.get? n).isSome) :
    ∃ g i, env.locals.get? g = none ∧ env.globals.get? g = some (.ref m i) ∧
      Node.Strays functions g m := by
  obtain ⟨missing, rfl | ⟨g, i, linked⟩⟩ := misses.end_cases
  · rw [missing] at bound
    cases bound
  · have undeclared := mt (shaped.isSome_get? h.call m).2 (by simp [missing])
    rcases get?_cases linked with linked | ⟨outside, linked⟩
    · exact absurd (h.locals g m i linked) undeclared
    · refine ⟨g, i, outside, linked, ?_⟩
      exact (h.globals g m i linked).resolve_left fun global => undeclared (.inr global)

end Anchored

end Environment

/-! ## Runs -/

/-- The layer of environments whose references lead to what the function that made them has. -/
def anchored (decls functions : List Node) : Layer where
  env env := ∃ a, env.Anchored decls functions a
  globals := Frame.Refers (Environment.GlobalRefers decls functions)
  node _ := True
  function f := f ∈ functions

theorem anchored_kept {S : Standard} {decls functions : List Node}
    (wf : ∀ f ∈ functions, f.Function S) :
    (anchored decls functions).Kept ((shapes decls functions).atop (typed S)).located where
  parts _ _ _ _ := trivial
  body _ _ _ _ _ _ _ := trivial
  globals _ h := h.elim fun _ h => h.globals
  withGlobals _ _ h hg := h.imp fun _ h => ⟨h.call, h.locals, hg⟩
  assignName _ _ _ _ _ _ _ _ _ _ _ h _ _ hv stored := h.imp fun _ h => h.store hv.isRef stored
  assignIndex _ _ _ _ _ _ _ _ _ _ _ _ _ _ _ h _ _ hv stored :=
    h.imp fun _ h => h.store hv.isRef stored
  bindElement i j k body env env' var array _ stmt _ named named' has henv h _ set := by
    obtain ⟨a, h⟩ := h
    obtain ⟨⟨-, shaped⟩, call⟩ := henv
    obtain ⟨start, items, ⟨⟨-, shapedStart⟩, callStart⟩, found⟩ := has
    obtain rfl : i.2 = a := Option.some.inj (Ghost.of_inj (call.symm.trans h.call))
    -- the function had the array when the loop began, and what it has does not change
    have declared :
        i.2.function.Declares array ∨ (Node.program decls functions).Declares array := by
      rw [← shapedStart.isSome_get? callStart, Option.isSome_iff_ne_none]
      intro none
      rw [Reference.resolve, Reference.resolveFrom_missing none] at found
      cases found
    refine ⟨i.2, h.set ?inside ?outside set⟩
    case inside =>
      rintro _ _ ⟨⟩
      exact declared
    case outside =>
      rintro outside y _ _ key ⟨⟩
      rcases declared with own | global
      · have notOwn : ¬ i.2.function.Declares y := by
          rw [← shaped.isSome_local call, Frame.get?_congr key, outside]
          simp
        exact .inr ⟨i.2.function, shaped.known call, j, k, body, var, stmt.2, named, key.symm,
          named', own, notOwn⟩
      · exact .inl global
  activate f params vars body vs g locals known _ each hg made := by
    have starts := Frame.Starts.activate (wf _ known) made
    exact ⟨_, rfl, starts.refers (Layout.args_plain each params), hg⟩

/-- The environment that an event is about. -/
def Event.environment? : Event → Option Environment
  | .reached env | .yielded _ env => some env
  | .returned .. | .called .. | .performed .. => none

/-- What a layer holds of an event holds of its environment. -/
theorem Layer.event_environment {L : Layer} {e : Event} {env : Environment} (h : L.event e)
    (about : e.environment? = some env) : L.env env := by
  cases e <;> cases about <;> exact h

/-- What a local or a global refers to, in every environment that a run of a well-formed program
    reaches. -/
theorem Node.WellFormed.run_anchored {S : Standard} {decls functions : List Node}
    (wf : (Node.program decls functions).WellFormed S) (options : Options) (remains : Remains)
    (earlier : List (Nat × Node)) (fuel : Nat) {e : Event}
    (member : e ∈ (((Session.new options remains).afterRuns earlier).run fuel
      (.program decls functions)).2.studio.events)
    {env : Environment} (about : e.environment? = some env) :
    env.Shaped decls functions ∧ ∃ a, env.Anchored decls functions a := by
  cases wf with
  | program d f =>
      have shape (g : Frame) (declared : Frame.declare [] decls = .ok g) :
          (shapes decls functions).globals g :=
        (Frame.Made.nil.declare d declared).fits _
      have anchor (g : Frame) (declared : Frame.declare [] decls = .ok g) :
          (anchored decls functions).globals g :=
        (Frame.Starts.nil.declare d declared).refers (List.forall_mem_nil _)
      have launched (options : Options) :
          ((shapes decls functions).atop (typed S)).Launched options decls functions :=
        Layer.atop_launched (shapes_kept f) (typed.launched d f) (fun _ known => known) shape
      have shaped := Node.WellFormed.run_keeps_layer (.program d f) (shapes_kept f)
        (fun _ known => known) shape options remains earlier fuel e member
      have anchored := Layer.run_keeps (anchored_kept f)
        (fun options => Invariant.located_launched (launched options))
        (fun _ => ⟨Orderly.cleared _, Layer.Holds.cleared _⟩) (fun _ known => known) anchor
        options remains earlier fuel e member
      exact ⟨Layer.event_environment shaped about, Layer.event_environment anchored about⟩

/-- When a name cannot be read for want of a declaration, in an environment that a run of a
    well-formed program reaches. The name is in neither frame. Or it is declared, and the references
    from it lead to a name that is in neither frame, the one that is reported; and that happens only
    where a loop in some other function made a global refer to an array of that function. All this
    holds however the run ends and whatever was run before it. -/
theorem run_undeclared_reads (options : Options) (remains : Remains) (earlier : List (Nat × Node))
    (fuel : Nat) {S : Standard} {decls functions : List Node}
    (wf : (Node.program decls functions).WellFormed S) {e : Event}
    (member : e ∈ (((Session.new options remains).afterRuns earlier).run fuel
      (.program decls functions)).2.studio.events)
    {env : Environment} (about : e.environment? = some env) {ctx : Context} {level : Nat}
    (entered : ctx.enter level = pure ()) (more : Nat) (s : Studio) (n : String) (m : Name) :
    (ctx.evaluate (more + 1) level (.ident (.text n)) env s).1 = .failed (.fault (.undeclared m)) ↔
      m = .text n ∧ env.get? m = none ∨
      (env.get? (.text n)).isSome ∧ Reference.Misses env (.text n) m ∧
        ∃ g i, env.locals.get? g = none ∧ env.globals.get? g = some (.ref m i) ∧
          Node.Strays functions g m := by
  obtain ⟨shaped, a, anchored⟩ := wf.run_anchored options remains earlier fuel member about
  rw [Context.evaluate_ident entered, Reference.Misses.resolve_iff]
  constructor
  · intro misses
    cases found : env.get? (.text n) with
    | none =>
        cases misses with
        | here missing => exact .inl ⟨rfl, missing⟩
        | ref bound =>
            rw [found] at bound
            cases bound
    | some v =>
        have bound : (env.get? (.text n)).isSome := by rw [found]; rfl
        exact .inr ⟨rfl, misses, anchored.strays shaped misses bound⟩
  · rintro (⟨rfl, missing⟩ | ⟨-, misses, -⟩)
    · exact .here missing
    · exact misses

theorem Studio.mem_events_of_history {s : Studio} {before : Ghost (List Event)} {e : Event}
    (last : s.history = before.map (· ++ [e])) : e ∈ s.events := by
  rw [Studio.events, last, Ghost.get_map]
  exact List.mem_append_right _ List.mem_cons_self

/-- A global is left with a reference to an array of a function that has returned. -/
theorem run_undeclared_reads_returned : ∃ decls functions env,
    decls = [Node.varDecl (.text "int") (.text "x")] ∧
    functions =
      [Node.funcDecl (.text "scan") [] [.varDecl (.text "int[]") (.text "a")]
        [.loopStmt (.text "x") (.text "a") (.block [])],
       .funcDecl (.text "main") [] []
        [.exprStmt (.call (.text "scan") []), .returnStmt (.ident (.text "x"))]] ∧
    (Node.program decls functions).WellFormed .loose ∧
    .reached env ∈ ((Session.new {}).run 20 (.program decls functions)).2.studio.events ∧
    (((Session.new {}).run 20 (.program decls functions)).1 matches
      .failed (.fault (.undeclared (.text "a")))) ∧
    ∀ m, ((Session.context {} []).evaluate 1 0 (.ident (.text "x")) env (Session.new {}).studio).1 =
        .failed (.fault (.undeclared m)) ↔
      m = .text "x" ∧ env.get? m = none ∨
      (env.get? (.text "x")).isSome ∧ Reference.Misses env (.text "x") m ∧
        ∃ g i, env.locals.get? g = none ∧ env.globals.get? g = some (.ref m i) ∧
          Node.Strays functions g m := by
  let main := Node.funcDecl (.text "main") [] []
    [.exprStmt (.call (.text "scan") []), .returnStmt (.ident (.text "x"))]
  let env : Environment := ⟨[], [(.text "x", .ref (.text "a") 0)], .of (some ⟨main, []⟩)⟩
  have var (t n : String) : (Node.varDecl (.text t) (.text n)).IsVariable := ⟨t, n, rfl⟩
  refine ⟨_, _, env, rfl, rfl, ?wf, ?reached, by decide +kernel,
    run_undeclared_reads {} {} [] 20 ?wf ?reached rfl rfl 0 (Session.new {}).studio "x"⟩
  case wf =>
    refine .program (by simp [var]) (List.forall_mem_cons.2 ⟨.funcDecl _ (by simp) (by simp [var])
      ?_, List.forall_mem_singleton.2 (.funcDecl _ (by simp) (by simp) ?_)⟩)
    · exact List.forall_mem_singleton.2 (.loopStmt _ _ (.block (List.forall_mem_nil _)))
    · exact List.forall_mem_cons.2 ⟨.exprStmt (.call _ (List.forall_mem_nil _)),
        List.forall_mem_singleton.2 (.returnStmt (List.forall_mem_singleton.2 (.ident _)))⟩
  case reached =>
    apply Studio.mem_events_of_history
    with_unfolding_all rfl

/-- A global runs over an array that is local to a function, and is read in another one meanwhile.
    It is declared, and it cannot be read. -/
theorem declared_read_fails : ∃ decls functions env,
    decls = [Node.varDecl (.text "int") (.text "x")] ∧
    functions =
      [Node.funcDecl (.text "peek") [] [] [.returnStmt (.ident (.text "x"))],
       .funcDecl (.text "main") [] [.varDecl (.text "int[]") (.text "a")]
        [.loopStmt (.text "x") (.text "a") (.returnStmt (.call (.text "peek") []))]] ∧
    (Node.program decls functions).WellFormed .loose ∧
    .reached env ∈ ((Session.new {}).run 20 (.program decls functions)).2.studio.events ∧
    (env.get? (.text "x")).isSome ∧
    (∀ (ctx : Context) (more level : Nat) (s : Studio), ctx.enter level = pure () →
      (ctx.evaluate (more + 1) level (.ident (.text "x")) env s).1 =
        .failed (.fault (.undeclared (.text "a")))) ∧
    (((Session.new {}).run 20 (.program decls functions)).1 matches
      .failed (.fault (.undeclared (.text "a")))) := by
  let peek := Node.funcDecl (.text "peek") [] [] [.returnStmt (.ident (.text "x"))]
  let env : Environment := ⟨[], [(.text "x", .ref (.text "a") 0)], .of (some ⟨peek, []⟩)⟩
  have var (t n : String) : (Node.varDecl (.text t) (.text n)).IsVariable := ⟨t, n, rfl⟩
  refine ⟨_, _, env, rfl, rfl, ?wf, ?reached, rfl, ?read, by decide +kernel⟩
  case wf =>
    refine .program (by simp [var]) (List.forall_mem_cons.2 ⟨.funcDecl _ (by simp) (by simp) ?_,
      List.forall_mem_singleton.2 (.funcDecl _ (by simp) (by simp [var]) ?_)⟩)
    · exact List.forall_mem_singleton.2 (.returnStmt (List.forall_mem_singleton.2 (.ident _)))
    · exact List.forall_mem_singleton.2 (.loopStmt _ _ (.returnStmt (List.forall_mem_singleton.2
        (.call _ (List.forall_mem_nil _)))))
  case reached =>
    apply Studio.mem_events_of_history
    with_unfolding_all rfl
  case read =>
    intro ctx more level s entered
    rw [Context.evaluate_ident entered, Reference.Misses.resolve_iff]
    exact .ref (i := 0) rfl (.here rfl)

end Cadence
