/-
  Simulation by the rules of the language.

  If the second of two machines goes along with the first (`OnMachines`), then so it does by every
  rule: for any expression, and for two statements that are the same but for the statements inside
  them (`Recasts`). Only statements that stand for one of another kind are left to the simulation
  itself.

  The limit on calls may be lower on the first side, if reaching it is a failure on which the first
  side may give up. The limit on nesting is left aside.
-/
import Cadence.Proofs.Run
import Cadence.Proofs.Simulation

namespace Cadence

namespace Simulation

variable {α β : Type} {T : Simulation}

/-! ## Tables of functions -/

namespace Tables

variable {table table' : Functions}

theorem get? (h : T.Tables table table') (name : Name) :
    table.get? name = none ∧ table'.get? name = none ∨
      ∃ f f', table.get? name = some f ∧ table'.get? name = some f' ∧ T.Function f f' := by
  induction h with
  | nil => exact .inl ⟨rfl, rfl⟩
  | @cons e e' rest rest' same _ ih =>
      rw [Functions.get?, Functions.get?, same.1]
      split
      · exact .inr ⟨e.2, e'.2, rfl, rfl, same.2⟩
      · exact ih

theorem insert (h : T.Tables table table') (name : Name) {f f' : Node} (hf : T.Function f f') :
    T.Tables (table.insert name f) (table'.insert name f') := by
  induction h with
  | nil => exact .cons ⟨rfl, hf⟩ .nil
  | @cons e e' rest rest' same tail ih =>
      rw [Functions.insert, Functions.insert, same.1]
      split
      · exact .cons ⟨rfl, hf⟩ tail
      · exact .cons ⟨rfl, same.2⟩ ih

end Tables

/-! ## Machines -/

/-- The second machine does as the first, for the same expressions and for statements that stand for
    each other. -/
structure OnMachines (T : Simulation) (m m' : Machine) : Prop where
  evaluate : ∀ node {env env' : Environment}, env.Like env' →
    T.Follows Beside (m.evaluate node env) (m'.evaluate node env')
  execute : ∀ {n n' : Node} {env env' : Environment}, T.stmt n n' → env.Like env' →
    T.Follows Outcome.Like (m.execute n env) (m'.execute n' env')
  rounds : T.short.Le m.rounds m'.rounds

/-- What governs the two runs. -/
structure OnContexts (T : Simulation) (ctx ctx' : Context) : Prop where
  first : ctx.debugLevel = T.debugLevel
  second : ctx'.debugLevel = T.debugLevel
  unbounded : ctx.nesting = none
  unbounded' : ctx'.nesting = none
  maxDepth : ctx'.maxDepth = ctx.maxDepth ∨
    ctx.maxDepth ≤ ctx'.maxDepth ∧ ∀ f, T.leaves (.fault (.callDepth ctx.maxDepth f))
  functions : T.Tables ctx.functions ctx'.functions

/-- Two statements of one kind with the same expressions; the statements in them stand for each
    other. -/
inductive Recasts (T : Simulation) : Node → Node → Prop
  | block {ns ns' : List Node} (h : List.Forall₂ T.stmt ns ns') : Recasts T (.block ns) (.block ns')
  | ifStmt (condition : Node) {t t' e e' : Node} (ht : T.stmt t t') (he : T.stmt e e')
      (absent : e'.isAbsent = e.isAbsent) :
      Recasts T (.ifStmt condition t e) (.ifStmt condition t' e')
  | whileStmt (condition : Node) {b b' : Node} (h : T.stmt b b') :
      Recasts T (.whileStmt condition b) (.whileStmt condition b')
  | forStmt (init condition post : Node) {b b' : Node} (h : T.stmt b b') :
      Recasts T (.forStmt init condition post b) (.forStmt init condition post b')
  | loopStmt (var array : Json) {b b' : Node} (h : T.stmt b b') :
      Recasts T (.loopStmt var array b) (.loopStmt var array b')
  | exprStmt (expr : Node) : Recasts T (.exprStmt expr) (.exprStmt expr)
  | returnStmt (value : Node) : Recasts T (.returnStmt value) (.returnStmt value)
  | other {n n' : Node} (h : n.isStatement = false) (h' : n'.isStatement = false)
      (kind : n'.kindName = n.kindName) : Recasts T n n'

/-! ## Single computations -/

namespace OnContexts

variable {ctx ctx' : Context} {Q : α → α → Prop}

theorem room (hc : T.OnContexts ctx ctx') : ctx'.room = ctx.room := by
  unfold Context.room
  rw [hc.unbounded, hc.unbounded']

/-- A debug message, and what comes after it. -/
theorem debug_bind (hc : T.OnContexts ctx ctx') (level : Int) {x y : Act String}
    {f g : Unit → Act α} (message : T.Follows Eq x y) (next : T.Follows Q (f ()) (g ())) :
    T.Follows Q (ctx.debug level x >>= f) (ctx'.debug level y >>= g) := by
  refine Follows.bindSame ?_ fun _ => next
  unfold Context.debug
  rw [hc.first, hc.second]
  split
  · exact message.bindSame fun text => .debug text
  · exact .pure rfl

theorem debugText_bind (hc : T.OnContexts ctx ctx') (level : Int) (v : Value) {h : String → String}
    {f g : Unit → Act α} (next : T.Follows Q (f ()) (g ())) :
    T.Follows Q (ctx.debug level (do return h (← ctx.text v)) >>= f)
      (ctx'.debug level (do return h (← ctx'.text v)) >>= g) := by
  refine hc.debug_bind level ?_ next
  unfold Context.text
  rw [hc.room]
  exact .lift_bind _ fun _ => .pure rfl

theorem debugTexts_bind (hc : T.OnContexts ctx ctx') (level : Int) (vs : List Value)
    {h : String → String} {f g : Unit → Act α} (next : T.Follows Q (f ()) (g ())) :
    T.Follows Q (ctx.debug level (do return h (← ctx.texts vs)) >>= f)
      (ctx'.debug level (do return h (← ctx'.texts vs)) >>= g) := by
  refine hc.debug_bind level ?_ next
  unfold Context.texts
  rw [hc.room]
  exact .lift_bind _ fun _ => .pure rfl

/-- The check of the limit on calls. If the first side alone is at its limit, it gives up. -/
theorem requireDepth_bind (hc : T.OnContexts ctx ctx') (d : Int) (name : String)
    {f g : Unit → Act α} (next : T.Follows Q (f ()) (g ())) :
    T.Follows Q (Act.require (d < ctx.maxDepth) (.callDepth ctx.maxDepth name) >>= f)
      (Act.require (d < ctx'.maxDepth) (.callDepth ctx'.maxDepth name) >>= g) := by
  rcases hc.maxDepth with same | ⟨le, leaves⟩
  · rw [same]
    exact (Follows.require _ _).bindSame fun _ => next
  · have grows : (Act.require (d < ctx'.maxDepth) (.callDepth ctx'.maxDepth name) >>= g).Grows := by
      refine Act.Grows.bind (.of_eq fun _ => ?_) fun _ => next.grows
      unfold Act.require
      split <;> rfl
    by_cases below : d < ctx.maxDepth
    · have below' : d < ctx'.maxDepth := by omega
      unfold Act.require
      rw [if_pos below, if_pos below']
      exact next
    · refine ⟨fun s t h => ?_, grows⟩
      have more := grows t
      rw [Act.require, if_neg below]
      obtain ⟨functions, history, rfl⟩ := h.rest
      exact .left (leaves name) h.isOpen more

end OnContexts

/-! ## Expressions -/

section

variable {m m' : Machine} {env env' : Environment}

theorem evaluateAll_follows (hm : T.OnMachines m m') :
    ∀ (nodes : List Node) {env env' : Environment}, env.Like env' →
      T.Follows Beside (m.evaluateAll nodes env) (m'.evaluateAll nodes env')
  | [], _, _, he => .pure ⟨rfl, he⟩
  | node :: rest, _, _, he => by
      unfold Machine.evaluateAll
      refine (hm.evaluate node he).bindBeside fun v env env' he => ?_
      exact (evaluateAll_follows hm rest he).bindBeside fun vs env env' he => .pure ⟨rfl, he⟩

theorem executeAll_follows (hm : T.OnMachines m m') {nodes nodes' : List Node}
    (h : List.Forall₂ T.stmt nodes nodes') (he : env.Like env') :
    T.Follows Outcome.Like (m.executeAll nodes env) (m'.executeAll nodes' env') := by
  induction h generalizing env env' with
  | nil => exact .pure (.next he)
  | cons head _ ih =>
      unfold Machine.executeAll
      refine (hm.execute head he).bindOutcome (fun env env' he => ih he) fun v globals => ?_
      exact .pure (.returned v globals)

theorem itemsOf_follows (he : env.Like env') (name : Name) (use : Fault.ArrayUse) :
    T.Follows Eq (Machine.itemsOf env name use) (Machine.itemsOf env' name use) := by
  unfold Machine.itemsOf
  rw [Reference.resolve_like he]
  refine .lift_bind _ fun v => ?_
  cases v with
  | array items => exact .pure rfl
  | _ => exact .fail _

theorem subscript_follows (hm : T.OnMachines m m') (array : Json) (indices : List Node)
    (he : env.Like env') :
    T.Follows Beside (m.subscript array indices env) (m'.subscript array indices env') := by
  match indices with
  | [] => exact .fail _
  | [node] =>
      refine (hm.evaluate node he).bindBeside fun v env env' he => ?_
      cases v with
      | int n => exact .pure ⟨rfl, he⟩
      | _ => exact .lift_bind _ fun tag => .fail _
  | _ :: _ :: _ => exact .fail _

theorem evaluateIndex_follows (hm : T.OnMachines m m') (array : Json) (indices : List Node)
    (he : env.Like env') :
    T.Follows Beside (m.evaluateIndex array indices env) (m'.evaluateIndex array indices env') := by
  unfold Machine.evaluateIndex
  refine .lift_bind _ fun name => ?_
  refine (itemsOf_follows he name .read).bindSame fun _ => ?_
  refine (subscript_follows hm array indices he).bindBeside fun index env env' he => ?_
  dsimp only
  rw [Reference.resolve_like he]
  refine .lift_bind _ fun held => .lift_bind _ fun v => ?_
  exact .pure ⟨rfl, he⟩

variable {ctx ctx' : Context}

theorem assignName_follows (hc : T.OnContexts ctx ctx') (target : Json) (value : Value)
    (he : env.Like env') :
    T.Follows Beside (Machine.assignName ctx target value env)
      (Machine.assignName ctx' target value env') := by
  unfold Machine.assignName
  refine .lift_bind _ fun name => ?_
  rw [Reference.resolve_like he]
  refine .lift_bind _ fun current => .lift_bind _ fun _ => ?_
  refine (Follows.lift (Reference.store_like he name value)).bind Environment.Like.refl ?_
  rintro env _ ⟨activation, rfl⟩
  refine hc.debug_bind 3 (.lift_bind _ fun scope => ?_) (.pure ⟨rfl, activation, rfl⟩)
  unfold Context.text
  rw [hc.room]
  exact .lift_bind _ fun text => .pure rfl

theorem assignIndex_follows (hc : T.OnContexts ctx ctx') (hm : T.OnMachines m m') (array : Json)
    (indices : List Node) (value : Value) (he : env.Like env') :
    T.Follows Beside (Machine.assignIndex ctx m array indices value env)
      (Machine.assignIndex ctx' m' array indices value env') := by
  unfold Machine.assignIndex
  rw [hc.unbounded, hc.unbounded']
  refine .lift_bind _ fun name => ?_
  refine (itemsOf_follows he name .assign).bindSame fun _ => ?_
  refine (subscript_follows hm array indices he).bindBeside fun index env env' he => ?_
  refine (itemsOf_follows he name .assign).bindSame fun items => ?_
  refine .lift_bind _ fun updated => ?_
  refine (Follows.lift (Reference.store_like he name updated)).bind Environment.Like.refl ?_
  intro env env' he
  exact hc.debugText_bind 3 value (.pure ⟨rfl, he⟩)

theorem assign_follows (hc : T.OnContexts ctx ctx') (hm : T.OnMachines m m') (target : Node)
    (value : Value) (he : env.Like env') :
    T.Follows Beside (Machine.assign ctx m target value env)
      (Machine.assign ctx' m' target value env') := by
  cases target with
  | ident name => exact assignName_follows hc name value he
  | index array indices => exact assignIndex_follows hc hm array indices value he
  | _ => exact .fail _

/-! ## Calls -/

theorem finishCall_follows (hc : T.OnContexts ctx ctx') (name : Json) {o o' : Outcome}
    (h : o.Like o') :
    T.Follows Eq (Machine.finishCall ctx name o) (Machine.finishCall ctx' name o') := by
  cases h with
  | next he =>
      obtain ⟨activation, rfl⟩ := he
      exact .pure rfl
  | returned v globals => exact hc.debugText_bind 2 v (.pure rfl)

theorem callFunction_follows (hc : T.OnContexts ctx ctx') (hm : T.OnMachines m m') {f f' : Node}
    (h : T.Function f f') (args : List Value) (globals : Frame) :
    T.Follows Eq (Machine.callFunction ctx m f args globals)
      (Machine.callFunction ctx' m' f' args globals) := by
  cases h with
  | funcDecl name params decls body =>
      unfold Machine.callFunction
      refine (Follows.note _ _).bindSame fun _ => ?_
      refine (Follows.require _ _).bindSame fun _ => ?_
      refine .lift_bind _ fun bound => .lift_bind _ fun locals => ?_
      refine hc.debugTexts_bind 2 args (.readDepth_bind fun d => ?_)
      refine hc.requireDepth_bind d name.shown ?_
      refine (executeAll_follows hm body ⟨_, rfl⟩).inCall.bind Outcome.Like.refl ?_
      exact fun o o' h => finishCall_follows hc name h
  | other no =>
      cases f with
      | funcDecl name params decls body => exact (no _ _ _ _ rfl).elim
      | _ => exact .fail _

theorem callBuiltin_follows (hc : T.OnContexts ctx ctx') (b : Builtin) (args : List Value) :
    T.Follows Eq (Machine.callBuiltin ctx b args) (Machine.callBuiltin ctx' b args) := by
  have arity : T.Follows Eq (Machine.checkArity b args) (Machine.checkArity b args) := by
    unfold Machine.checkArity
    cases b.arity with
    | none => exact .pure rfl
    | some n => exact .require _ _
  unfold Machine.callBuiltin
  refine arity.bindSame fun _ => hc.debugTexts_bind 2 args ?_
  rw [hc.room]
  exact .perform _ b args

theorem evaluateCall_follows (hc : T.OnContexts ctx ctx') (hm : T.OnMachines m m')
    (function : Json) (args : List Node) (he : env.Like env') :
    T.Follows Beside (Machine.evaluateCall ctx m function args env)
      (Machine.evaluateCall ctx' m' function args env') := by
  unfold Machine.evaluateCall
  refine .lift_bind _ fun name => ?_
  cases Builtin.named? name with
  | some b =>
      refine (evaluateAll_follows hm args he).bindBeside fun vs env env' he => ?_
      exact (callBuiltin_follows hc b vs).bindSame fun v => .pure ⟨rfl, he⟩
  | none =>
      dsimp only
      rcases hc.functions.get? name with ⟨none, none'⟩ | ⟨f, f', some, some', same⟩
      · rw [none, none']
        exact .fail _
      · rw [some, some']
        refine (evaluateAll_follows hm args he).bindBeside ?_
        rintro vs env _ ⟨activation, rfl⟩
        refine (callFunction_follows hc hm same vs env.globals).bindSame fun r => ?_
        exact .pure ⟨rfl, activation, rfl⟩

theorem evaluateNode_follows (hc : T.OnContexts ctx ctx') (hm : T.OnMachines m m') (node : Node)
    (he : env.Like env') :
    T.Follows Beside (Machine.evaluateNode ctx m node env)
      (Machine.evaluateNode ctx' m' node env') := by
  cases node with
  | literal content kind => exact .lift_bind _ fun v => .pure ⟨rfl, he⟩
  | ident name =>
      refine .lift_bind _ fun name => ?_
      rw [Reference.resolve_like he]
      exact .lift_bind _ fun v => .pure ⟨rfl, he⟩
  | arrayLit elements =>
      refine (evaluateAll_follows hm elements he).bindBeside fun vs env env' he => ?_
      exact .lift_bind _ fun v => .pure ⟨rfl, he⟩
  | index array indices => exact evaluateIndex_follows hm array indices he
  | assign target value =>
      refine (hm.evaluate value he).bindBeside fun v env env' he => ?_
      exact assign_follows hc hm target v he
  | binaryOp op left right =>
      refine (hm.evaluate left he).bindBeside fun a env env' he => ?_
      refine (hm.evaluate right he).bindBeside fun b env env' he => ?_
      exact .lift_bind _ fun v => .pure ⟨rfl, he⟩
  | unaryOp op operand =>
      refine (hm.evaluate operand he).bindBeside fun a env env' he => ?_
      exact .lift_bind _ fun v => .pure ⟨rfl, he⟩
  | call name args => exact evaluateCall_follows hc hm name args he
  | _ => exact .fail _

/-! ## Statements -/

/-- Two loops go along if they do so for one more round on each side whenever they do so for the
    rounds behind it. -/
theorem loop_follows {x y : Nat → Environment → Act Outcome}
    (out : ∀ env, x 0 env = Act.unfinished) (out' : ∀ env, y 0 env = Act.unfinished)
    (step : ∀ rounds rounds',
      (∀ {env env' : Environment}, env.Like env' →
        T.Follows Outcome.Like (x rounds env) (y rounds' env')) →
      ∀ {env env' : Environment}, env.Like env' →
        T.Follows Outcome.Like (x (rounds + 1) env) (y (rounds' + 1) env')) :
    ∀ (rounds' rounds : Nat) {env env' : Environment}, T.short.Le rounds rounds' → env.Like env' →
      T.Follows Outcome.Like (x rounds env) (y rounds' env')
  | 0, rounds, env, env', le, _ => by
      rw [out' env']
      cases side : T.short with
      | first =>
          rw [side] at le
          rw [Nat.le_zero.1 le, out env]
          exact .unfinishedFirst side (.of_eq fun _ => rfl)
      | second => exact .unfinishedSecond side
  | rounds' + 1, 0, env, env', le, he => by
      cases side : T.short with
      | first =>
          have behind {env env' : Environment} (he : env.Like env') :=
            loop_follows out out' step rounds' 0 (side ▸ Nat.zero_le rounds') he
          rw [out env]
          exact .unfinishedFirst side (step 0 rounds' behind he).grows
      | second =>
          rw [side] at le
          exact absurd le (Nat.not_succ_le_zero rounds')
  | rounds' + 1, rounds + 1, env, env', le, he => by
      have le : T.short.Le rounds rounds' := by
        cases side : T.short <;> rw [side] at le <;> exact Nat.le_of_succ_le_succ le
      exact step rounds rounds' (loop_follows out out' step rounds' rounds le) he

theorem whileLoop_follows (hm : T.OnMachines m m') (condition : Node) {body body' : Node}
    (hb : T.stmt body body') {rounds rounds' : Nat} (le : T.short.Le rounds rounds')
    (he : env.Like env') :
    T.Follows Outcome.Like (m.whileLoop condition body rounds env)
      (m'.whileLoop condition body' rounds' env') := by
  refine loop_follows (fun _ => rfl) (fun _ => rfl) (fun rounds rounds' behind env env' he => ?_)
    rounds' rounds le he
  unfold Machine.whileLoop
  refine (hm.evaluate condition he).bindBeside fun c env env' he => ?_
  dsimp only
  split
  · exact (hm.execute hb he).bindOutcome (fun _ _ he => behind he) fun v globals =>
      .pure (.returned v globals)
  · exact .pure (.next he)

theorem evaluateOptional_follows (hm : T.OnMachines m m') (node : Node) (he : env.Like env') :
    T.Follows Environment.Like (m.evaluateOptional node env) (m'.evaluateOptional node env') := by
  unfold Machine.evaluateOptional
  split
  · exact .pure he
  · exact (hm.evaluate node he).bindBeside fun _ env env' he => .pure he

theorem conditionHolds_follows (hm : T.OnMachines m m') (condition : Node) (he : env.Like env') :
    T.Follows Beside (m.conditionHolds condition env) (m'.conditionHolds condition env') := by
  unfold Machine.conditionHolds
  split
  · exact .pure ⟨rfl, he⟩
  · exact (hm.evaluate condition he).bindBeside fun c env env' he => .pure ⟨rfl, he⟩

theorem forLoop_follows (hm : T.OnMachines m m') (condition post : Node) {body body' : Node}
    (hb : T.stmt body body') {rounds rounds' : Nat} (le : T.short.Le rounds rounds')
    (he : env.Like env') :
    T.Follows Outcome.Like (m.forLoop condition post body rounds env)
      (m'.forLoop condition post body' rounds' env') := by
  refine loop_follows (fun _ => rfl) (fun _ => rfl) (fun rounds rounds' behind env env' he => ?_)
    rounds' rounds le he
  unfold Machine.forLoop
  refine (conditionHolds_follows hm condition he).bindBeside fun holds env env' he => ?_
  dsimp only
  split
  · refine (hm.execute hb he).bindOutcome (fun env env' he => ?_) fun v globals =>
      .pure (.returned v globals)
    exact (evaluateOptional_follows hm post he).bind Environment.Like.refl fun _ _ he => behind he
  · exact .pure (.next he)

theorem elementLoop_follows (hm : T.OnMachines m m') (var array : Name) {body body' : Node}
    (hb : T.stmt body body') : ∀ (count : Nat) (index : Int) {env env' : Environment},
      env.Like env' → T.Follows Outcome.Like (m.elementLoop var array body count index env)
        (m'.elementLoop var array body' count index env')
  | 0, _, _, _, he => .pure (.next he)
  | count + 1, index, env, env', he => by
      unfold Machine.elementLoop
      refine (Follows.lift (he.set var (.ref array index))).bind Environment.Like.refl ?_
      intro env env' he
      refine (hm.execute hb he).bindOutcome (fun env env' he => ?_) fun v globals =>
        .pure (.returned v globals)
      exact elementLoop_follows hm var array hb count (index + 1) he

theorem executeLoop_follows (hm : T.OnMachines m m') (var array : Json) {body body' : Node}
    (hb : T.stmt body body') (he : env.Like env') :
    T.Follows Outcome.Like (m.executeLoop var array body env)
      (m'.executeLoop var array body' env') := by
  unfold Machine.executeLoop
  refine (Follows.require _ _).bindSame fun _ => .lift_bind _ fun arrayName => ?_
  refine (itemsOf_follows he arrayName .loop).bindSame fun items => ?_
  split
  · exact .pure (.next he)
  · exact .lift_bind _ fun varName => elementLoop_follows hm varName arrayName hb items.size 0 he

theorem executeNode_other (ctx : Context) (m : Machine) {n : Node} (h : n.isStatement = false)
    (env : Environment) : Machine.executeNode ctx m n env =
      Act.fail (.defect (.unexpectedNode .execute n.kindName)) := by
  cases n with
  | block | exprStmt | ifStmt | whileStmt | forStmt | loopStmt | returnStmt => cases h
  | _ => rfl

theorem executeNode_follows (hc : T.OnContexts ctx ctx') (hm : T.OnMachines m m') {n n' : Node}
    (h : T.Recasts n n') (he : env.Like env') :
    T.Follows Outcome.Like (Machine.executeNode ctx m n env)
      (Machine.executeNode ctx' m' n' env') := by
  cases h with
  | block statements => exact executeAll_follows hm statements he
  | ifStmt condition thenBranch elseBranch absent =>
      refine (hm.evaluate condition he).bindBeside fun c env env' he => hc.debugText_bind 3 c ?_
      split
      · exact hm.execute thenBranch he
      · rw [absent]
        split
        · exact .pure (.next he)
        · exact hm.execute elseBranch he
  | whileStmt condition body => exact whileLoop_follows hm condition body hm.rounds he
  | forStmt init condition post body =>
      refine (evaluateOptional_follows hm init he).bind Environment.Like.refl fun env env' he => ?_
      exact forLoop_follows hm condition post body hm.rounds he
  | loopStmt var array body => exact executeLoop_follows hm var array body he
  | exprStmt expr =>
      exact (hm.evaluate expr he).bindBeside fun _ env env' he => .pure (.next he)
  | returnStmt value =>
      unfold Machine.executeNode
      dsimp only
      split
      · obtain ⟨activation, rfl⟩ := he
        exact .pure (.returned (.bool false) env.globals)
      · refine (hm.evaluate value he).bindBeside ?_
        rintro v env _ ⟨activation, rfl⟩
        exact .pure (.returned v env.globals)
  | other h h' kind =>
      rw [executeNode_other ctx m h, executeNode_other ctx' m' h', kind]
      exact .fail _

/-! ## One more level -/

variable {fuel fuel' level level' : Nat}

theorem enter_bind (hc : T.OnContexts ctx ctx') {R : α → α → Prop} {f g : Unit → Act α}
    (next : T.Follows R (f ()) (g ())) :
    T.Follows R (ctx.enter level >>= f) (ctx'.enter level' >>= g) := by
  rw [Context.enter_unbounded hc.unbounded, Context.enter_unbounded hc.unbounded']
  exact next

theorem evaluate_follows (hc : T.OnContexts ctx ctx')
    (hm : T.OnMachines (ctx.machine fuel (level + 1)) (ctx'.machine fuel' (level' + 1)))
    (node : Node) (he : env.Like env') :
    T.Follows Beside (ctx.evaluate (fuel + 1) level node env)
      (ctx'.evaluate (fuel' + 1) level' node env') := by
  simp only [Context.evaluate]
  refine enter_bind hc ((Follows.note _ _).bindSame fun _ => ?_)
  refine (evaluateNode_follows hc hm node he).bindBeside fun v env env' he => ?_
  exact (Follows.note _ _).bindSame fun _ => .pure ⟨rfl, he⟩

/-- Two statements, by what the rules make of them. -/
theorem execute_follows_of_node (hc : T.OnContexts ctx ctx') {n n' : Node}
    (h : T.Follows Outcome.Like
      (Machine.executeNode ctx (ctx.machine fuel (level + 1)) n env)
      (Machine.executeNode ctx' (ctx'.machine fuel' (level' + 1)) n' env')) :
    T.Follows Outcome.Like (ctx.execute (fuel + 1) level n env)
      (ctx'.execute (fuel' + 1) level' n' env') := by
  simp only [Context.execute]
  refine enter_bind hc ((Follows.note _ _).bindSame fun _ => ?_)
  refine h.bind Outcome.Like.refl fun o o' ho => ?_
  exact (Follows.note _ _).bindSame fun _ => .pure ho

theorem execute_follows (hc : T.OnContexts ctx ctx')
    (hm : T.OnMachines (ctx.machine fuel (level + 1)) (ctx'.machine fuel' (level' + 1)))
    {n n' : Node} (h : T.Recasts n n') (he : env.Like env') :
    T.Follows Outcome.Like (ctx.execute (fuel + 1) level n env)
      (ctx'.execute (fuel' + 1) level' n' env') :=
  execute_follows_of_node hc (executeNode_follows hc hm h he)

end

end Simulation

end Cadence
