/-
  Simulated runs.

  `machines_follow` closes the recursion for simulations in which statements stand for statements of
  their kind. A computation beside itself is one of them; from it comes that a run only ever adds
  lines to the console. `run_follows` then leads from two machines to two whole runs: they end with
  the same value or the same failure and have done the same, unless the first has given up or the
  fuel of one of them is used up.
-/
import Cadence.Proofs.SimulatedSteps

namespace Cadence.Simulation

variable {α β : Type} {T : Simulation}

/-! ## Machines that differ in their fuel -/

section

variable {ctx ctx' : Context}

/-- If statements stand for statements of their kind, machines go along by induction on the fuel. -/
theorem machines_follow (hc : T.OnContexts ctx ctx')
    (recasts : ∀ {n n' : Node}, T.stmt n n' → T.Recasts n n') :
    ∀ (fuel' fuel : Nat), T.short.Le fuel fuel' → ∀ level level',
      T.OnMachines (ctx.machine fuel level) (ctx'.machine fuel' level')
  | 0, fuel, le, level, level' => by
      cases side : T.short with
      | first =>
          rw [side] at le
          cases Nat.le_zero.1 le
          refine ⟨fun node env env' _ => ?_, fun {n n' env env'} _ _ => ?_, side ▸ le⟩
          all_goals
            simp only [Context.machine, Context.evaluate, Context.execute]
            exact .unfinishedFirst side (.of_eq fun _ => rfl)
      | second =>
          refine ⟨fun node env env' _ => ?_, fun {n n' env env'} _ _ => ?_, le⟩
          all_goals
            simp only [Context.machine, Context.evaluate, Context.execute]
            exact .unfinishedSecond side
  | fuel' + 1, 0, le, level, level' => by
      cases side : T.short with
      | first =>
          have inside := machines_follow hc recasts fuel' 0 (side ▸ Nat.zero_le fuel') (level + 1)
            (level' + 1)
          -- that the second side only adds lines comes from a first side with one unit of fuel
          refine ⟨fun node env env' he => ?_, fun {n n' env env'} hn he => ?_, le⟩
          · have grows := (evaluate_follows hc inside node he).grows
            simp only [Context.machine, Context.evaluate] at grows ⊢
            exact .unfinishedFirst side grows
          · have grows := (execute_follows hc inside (recasts hn) he).grows
            simp only [Context.machine, Context.execute] at grows ⊢
            exact .unfinishedFirst side grows
      | second =>
          rw [side] at le
          exact absurd le (Nat.not_succ_le_zero fuel')
  | fuel' + 1, fuel + 1, le, level, level' => by
      have less : T.short.Le fuel fuel' := by
        cases side : T.short <;> rw [side] at le <;> exact Nat.le_of_succ_le_succ le
      have inside := machines_follow hc recasts fuel' fuel less (level + 1) (level' + 1)
      exact ⟨fun node _ _ he => evaluate_follows hc inside node he,
        fun hn he => execute_follows hc inside (recasts hn) he, le⟩

end

/-! ## A computation beside itself -/

theorem recasts_refl (refl : ∀ n, T.stmt n n) (n : Node) : T.Recasts n n := by
  cases n with
  | block statements => exact .block (List.forall₂_same.2 fun n _ => refl n)
  | ifStmt condition t e => exact .ifStmt condition (refl t) (refl e) rfl
  | whileStmt condition body => exact .whileStmt condition (refl body)
  | forStmt init condition post body => exact .forStmt init condition post (refl body)
  | loopStmt var array body => exact .loopStmt var array (refl body)
  | exprStmt expr => exact .exprStmt expr
  | returnStmt value => exact .returnStmt value
  | _ => exact .other rfl rfl rfl

theorem function_refl (refl : ∀ n, T.stmt n n) (f : Node) : T.Function f f := by
  cases f with
  | funcDecl name params decls body =>
      exact .funcDecl name params decls (List.forall₂_same.2 fun n _ => refl n)
  | _ => exact .other nofun

theorem tables_refl (refl : ∀ n, T.stmt n n) (table : Functions) : T.Tables table table :=
  List.forall₂_same.2 fun e _ => ⟨rfl, function_refl refl e.2⟩

/-- Every statement stands for itself, and neither side gives up. -/
def itself (debugLevel : Int) : Simulation := ⟨.second, fun _ => False, debugLevel, Eq⟩

section

variable {ctx : Context}

theorem itself_onContexts (none : ctx.nesting = none) :
    (itself ctx.debugLevel).OnContexts ctx ctx :=
  ⟨rfl, rfl, none, none, .inl rfl, tables_refl (fun _ => rfl) ctx.functions⟩

theorem itself_onMachines (none : ctx.nesting = none) (fuel level : Nat) :
    (itself ctx.debugLevel).OnMachines (ctx.machine fuel level) (ctx.machine fuel level) := by
  refine machines_follow (itself_onContexts none) ?_ fuel fuel (Nat.le_refl fuel) level level
  rintro n _ rfl
  exact recasts_refl (fun _ => rfl) n

theorem execute_grows (none : ctx.nesting = none) (fuel level : Nat) (n : Node)
    (env : Environment) : (ctx.execute fuel level n env).Grows :=
  ((itself_onMachines none fuel level).execute rfl (.refl env)).grows

theorem evaluate_grows (none : ctx.nesting = none) (fuel level : Nat) (n : Node)
    (env : Environment) : (ctx.evaluate fuel level n env).Grows :=
  ((itself_onMachines none fuel level).evaluate n (.refl env)).grows

theorem callFunction_grows (none : ctx.nesting = none) (fuel level : Nat) (f : Node)
    (args : List Value) (globals : Frame) :
    (Machine.callFunction ctx (ctx.machine fuel level) f args globals).Grows :=
  (callFunction_follows (itself_onContexts none) (itself_onMachines none fuel level)
    (function_refl (fun _ => rfl) f) args globals).grows

end

/-! ## Declarations and runs -/

theorem Function.nameField {f f' : Node} (h : T.Function f f') : f'.nameField = f.nameField := by
  cases h <;> rfl

/-- Two programs with the same globals and with functions that stand for each other. -/
inductive Programs (T : Simulation) : Node → Node → Prop
  | program (decls : List Node) {functions functions' : List Node}
      (h : List.Forall₂ T.Function functions functions') :
      Programs T (.program decls functions) (.program decls functions')
  | other {n : Node} (h : ∀ decls functions, n ≠ .program decls functions) : Programs T n n

theorem programs_refl (refl : ∀ n, T.stmt n n) (p : Node) : T.Programs p p := by
  cases p with
  | program decls functions =>
      exact .program decls (List.forall₂_same.2 fun f _ => function_refl refl f)
  | _ => exact .other nofun

/-- How two runs end. -/
inductive RunsEnd (T : Simulation) : Ending Value × Session → Ending Value × Session → Prop
  | done (v : Value) {a b : Session} (h : a.studio.Like b.studio) :
      RunsEnd T (.done v, a) (.done v, b)
  | failed (e : Failure) {a b : Session} (h : a.studio.Like b.studio) :
      RunsEnd T (.failed e, a) (.failed e, b)
  | left {e : Failure} {a : Session} {r : Ending Value × Session} (leaves : T.leaves e)
      (more : a.studio.console.toList <+: r.2.studio.console.toList) : RunsEnd T (.failed e, a) r
  | cutFirst {a : Session} {r : Ending Value × Session} (short : T.short = .first) :
      RunsEnd T (.unfinished, a) r
  | cutSecond {b : Session} {r : Ending Value × Session} (short : T.short = .second) :
      RunsEnd T r (.unfinished, b)

/-- What the sessions of the two runs are to have. -/
structure OnSessions (T : Simulation) (options options' : Options) : Prop where
  first : options.debugLevel = T.debugLevel
  second : options'.debugLevel = T.debugLevel
  unbounded : options.nesting = none
  unbounded' : options'.nesting = none
  maxDepth : options'.maxDepth = options.maxDepth ∨
    options.maxDepth ≤ options'.maxDepth ∧ ∀ f, T.leaves (.fault (.callDepth options.maxDepth f))

section

variable {options options' : Options}

theorem OnSessions.contexts (h : T.OnSessions options options') {table table' : Functions}
    (tables : T.Tables table table') :
    T.OnContexts (Session.context options table) (Session.context options' table') where
  first := h.first
  second := h.second
  unbounded := by rw [Session.context, h.unbounded]; rfl
  unbounded' := by rw [Session.context, h.unbounded']; rfl
  maxDepth := h.maxDepth
  functions := tables

theorem OnSessions.debug_follows (h : T.OnSessions options options') (text : String) :
    T.Follows Eq (Act.modify (Session.debug options text))
      (Act.modify (Session.debug options' text)) := by
  unfold Session.debug
  rw [h.first, h.second]
  split
  · exact .debug text
  · exact .modify (fun _ _ h => h) fun _ => List.prefix_rfl

/-- Whatever follows is to add lines only, for any table and not just for one of the second side. -/
theorem readTable_bind {Q : β → β → Prop} {f g : Functions → Act β}
    (next : ∀ table table', T.Tables table table' → T.Follows Q (f table) (g table'))
    (grows : ∀ table, (g table).Grows) :
    T.Follows Q (Act.read Studio.functions >>= f) (Act.read Studio.functions >>= g) :=
  ⟨fun s t h => (next _ _ h.tables).ends s t h, fun t => grows t.functions t⟩

theorem declareFunctions_follows (h : T.OnSessions options options')
    {functions functions' : List Node} (hf : List.Forall₂ T.Function functions functions') :
    T.Follows Eq (Session.declareFunctions options functions)
      (Session.declareFunctions options' functions') := by
  induction hf with
  | nil => exact .pure rfl
  | @cons f f' rest rest' same _ ih =>
      have insert (name : Name) : T.Follows Eq
          (Act.modify fun s => { s with functions := s.functions.insert name f })
          (Act.modify fun s => { s with functions := s.functions.insert name f' }) := by
        refine .modify ?_ fun _ => List.prefix_rfl
        rintro s _ ⟨⟨table, history, rfl⟩, tables, isOpen⟩
        exact ⟨⟨_, history, rfl⟩, tables.insert name same, isOpen⟩
      have debug (c : Bool) (text : String) : T.Follows Eq
          (Act.modify fun s => if c then Session.debug options text s else s)
          (Act.modify fun s => if c then Session.debug options' text s else s) := by
        cases c with
        | true => exact h.debug_follows text
        | false => exact .modify (fun _ _ h => h) fun _ => List.prefix_rfl
      unfold Session.declareFunctions
      rw [same.nameField]
      refine .lift_bind _ fun name => readTable_bind (fun table table' tables => ?_) fun table => ?_
      · have known : (table'.get? name).isSome = (table.get? name).isSome := by
          rcases tables.get? name with ⟨none, none'⟩ | ⟨_, _, some, some', _⟩
          · rw [none, none']
          · rw [some, some']
            rfl
        dsimp only
        rw [known]
        exact (debug _ _).bindSame fun _ => (insert name).bindSame fun _ => ih
      · exact (debug _ _).grows.bind fun _ => (insert name).grows.bind fun _ => ih.grows

variable {fuel fuel' : Nat}

theorem launch_follows (h : T.OnSessions options options') (decls : List Node)
    {functions functions' : List Node} (hf : List.Forall₂ T.Function functions functions')
    (machines : ∀ table table', T.Tables table table' →
      T.OnMachines ((Session.context options table).machine fuel 0)
        ((Session.context options' table').machine fuel' 0)) :
    T.Follows Eq (Session.launch options fuel decls functions)
      (Session.launch options' fuel' decls functions') := by
  unfold Session.launch
  refine (declareFunctions_follows h hf).bindSame fun _ => readTable_bind ?_ ?_
  · intro table table' tables
    have hc := h.contexts tables
    refine .lift_bind _ fun globals => ?_
    rcases tables.get? (.text "main") with ⟨none, none'⟩ | ⟨main, main', some, some', same⟩
    · rw [none, none']
      exact .fail _
    · rw [some, some', ← tables.length_eq]
      refine (h.debug_follows _).bindSame fun _ => ?_
      refine (callFunction_follows hc (machines table table' tables) same [] globals).bindSame ?_
      rintro ⟨v, _⟩
      dsimp only [Context.text]
      rw [hc.room]
      exact .lift_bind _ fun text => (h.debug_follows _).bindSame fun _ => .pure rfl
  · intro table
    refine (Act.Grows.lift _).bind fun globals => ?_
    cases table.get? (.text "main") with
    | none => exact .of_eq fun _ => rfl
    | some main =>
        refine (h.debug_follows _).grows.bind fun _ => ?_
        refine (callFunction_grows ?_ fuel' 0 main [] globals).bind fun r => ?_
        · rw [Session.context, h.unbounded']
          rfl
        · exact (Act.Grows.lift _).bind fun _ => (h.debug_follows _).grows.bind fun _ => .pure _

/-! ### The end of a run -/

end

/-- A run that fails while its log is open shows no more on the console. -/
theorem console_abort (options : Options) (e : Failure) {s : Studio}
    (isOpen : 0 < options.debugLevel → s.log.isOpen = true) :
    (Session.abort options e s).console = s.console := by
  have debug (text : String) : (Session.debug options text s).console = s.console := by
    unfold Session.debug
    split
    · next pos => rw [Studio.debug, if_pos (isOpen pos)]
    · rfl
  unfold Session.abort
  cases Session.abortNote e with
  | some text => exact debug text
  | none => rfl

/-- Neither way of ending a run takes lines back. -/
theorem console_le_abort (options : Options) (e : Failure) (s : Studio) :
    s.console.toList <+: (Session.abort options e s).console.toList := by
  have debug (text : String) :
      s.console.toList <+: (Session.debug options text s).console.toList := by
    unfold Session.debug
    split
    · exact s.console_debug text
    · exact List.prefix_rfl
  unfold Session.abort
  cases Session.abortNote e with
  | some text => exact debug text
  | none => exact List.prefix_rfl

theorem abort_like {options options' : Options} (level : options'.debugLevel = options.debugLevel)
    (e : Failure) {s t : Studio} (h : s.Like t) :
    (Session.abort options e s).closeLog.Like (Session.abort options' e t).closeLog := by
  obtain ⟨functions, history, rfl⟩ := h
  unfold Session.abort Session.debug
  rw [level]
  cases Session.abortNote e with
  | none => exact ⟨functions, history, rfl⟩
  | some text =>
      dsimp only
      split
      · unfold Studio.debug
        dsimp only
        split <;> exact ⟨functions, history, rfl⟩
      · exact ⟨functions, history, rfl⟩

section

variable {options options' : Options} {fuel fuel' : Nat}

theorem start_ends (h : T.OnSessions options options') (studio : Studio) {p p' : Node}
    (hp : T.Programs p p')
    (machines : ∀ table table', T.Tables table table' →
      T.OnMachines ((Session.context options table).machine fuel 0)
        ((Session.context options' table').machine fuel' 0)) :
    T.Ends Eq (Session.start options fuel p (Session.openLog options studio))
      (Session.start options' fuel' p' (Session.openLog options' studio)) := by
  have opened : Session.openLog options' studio = Session.openLog options studio := by
    unfold Session.openLog
    rw [h.first, h.second]
  have studios : T.Studios (Session.cleared (Session.openLog options studio))
      (Session.cleared (Session.openLog options' studio)) := by
    rw [opened]
    exact ⟨⟨_, _, rfl⟩, .nil, fun pos => Session.isOpen_openLog options studio (h.first ▸ pos)⟩
  cases hp with
  | program decls hf => exact (launch_follows h decls hf machines).ends _ _ studios
  | other no =>
      cases p with
      | program decls functions => exact (no decls functions rfl).elim
      | _ => exact .failed _ studios

/-- Two runs in sessions with the same studio. -/
theorem run_follows (h : T.OnSessions options options') (studio : Studio) {p p' : Node}
    (hp : T.Programs p p')
    (machines : ∀ table table', T.Tables table table' →
      T.OnMachines ((Session.context options table).machine fuel 0)
        ((Session.context options' table').machine fuel' 0)) :
    T.RunsEnd (Session.run ⟨options, studio⟩ fuel p) (Session.run ⟨options', studio⟩ fuel' p') := by
  have ok {options : Options} (none : options.nesting = none) : options.Accepted := by
    rw [Options.Accepted, none]
    rfl
  have ends := start_ends h studio hp machines
  rw [Session.run_eq (ok h.unbounded), Session.run_eq (ok h.unbounded')]
  dsimp only
  generalize Session.start options fuel p _ = x at ends ⊢
  generalize Session.start options' fuel' p' _ = y at ends ⊢
  cases ends with
  | @done v _ s t same hst =>
      cases same
      obtain ⟨functions, history, rfl⟩ := hst.rest
      exact .done v ⟨functions, history, rfl⟩
  | failed e hst => exact .failed e (abort_like (h.second.trans h.first.symm) e hst.rest)
  | @left e s r leaves isOpen more =>
      have shown := console_abort options e fun pos => isOpen (h.first ▸ pos)
      refine .left leaves ?_
      show (Session.abort options e s).console.toList <+: _
      rw [shown]
      rcases y with ⟨v | e' | _, t⟩
      · exact more
      · exact more.trans (console_le_abort options' e' t)
      · exact more
  | cutFirst short => exact .cutFirst short
  | cutSecond short => exact .cutSecond short

end

end Cadence.Simulation
