/-
  Counted loops as loops with a condition.

  `Node.whileForm` writes every `for` of a statement as a `while`: the first expression before it,
  the last one behind the body, and the condition true if there is none. A program and its while
  form do the same, and one run ends if and only if the other does (`run_whileForm`). What a pass of
  a `for` does is `Machine.pass`; it is what the block does that takes the place of the body.

  The while form nests deeper, so it needs more fuel. The two directions are one simulation, with
  either side as the one that may run out of fuel.
-/
import Cadence.Proofs.SimulatedRuns
import Cadence.Proofs.Termination

namespace Cadence

/-! ## The while form -/

namespace Node

/-- An expression as a statement, if it is there. -/
def asStatement (n : Node) : List Node := if n.isAbsent then [] else [.exprStmt n]

/-- A condition, or one that holds if it is missing. -/
def orTrue (n : Node) : Node :=
  if n.isAbsent then .literal (.plain (.bool true)) (.text "bool") else n

mutual
/-- A statement with every `for` in it, at any depth, written as a `while`. -/
def whileForm : Node → Node
  | .block statements => .block (whileForms statements)
  | .ifStmt condition thenBranch elseBranch =>
      .ifStmt condition thenBranch.whileForm elseBranch.whileForm
  | .whileStmt condition body => .whileStmt condition body.whileForm
  | .forStmt init condition post body =>
      .block (init.asStatement ++
        [.whileStmt condition.orTrue (.block (body.whileForm :: post.asStatement))])
  | .loopStmt var array body => .loopStmt var array body.whileForm
  | n => n

def whileForms : List Node → List Node
  | [] => []
  | n :: rest => n.whileForm :: whileForms rest
end

/-- A function with its body in while form. -/
def whileFormBody : Node → Node
  | .funcDecl name params decls body => .funcDecl name params decls (whileForms body)
  | n => n

/-- A program with all its functions in while form. -/
def whileFormProgram : Node → Node
  | .program decls functions => .program decls (functions.map whileFormBody)
  | n => n

theorem isAbsent_whileForm (n : Node) : n.whileForm.isAbsent = n.isAbsent := by
  cases n <;> simp only [whileForm] <;> rfl

def isFor : Node → Bool
  | .forStmt .. => true
  | _ => false

/-! ## No `for` is left -/

inductive Place where
  | expression
  | statement

/-- Expressions are where expressions belong, and statements where statements do. -/
inductive Placed : Place → Node → Prop
  | literal (content : Literal) (kind : Json) : Placed .expression (.literal content kind)
  | ident (name : Json) : Placed .expression (.ident name)
  | arrayLit {elements : List Node} (each : ∀ e ∈ elements, Placed .expression e) :
      Placed .expression (.arrayLit elements)
  | index (array : Json) {indices : List Node} (each : ∀ e ∈ indices, Placed .expression e) :
      Placed .expression (.index array indices)
  | assign {target value : Node} (t : Placed .expression target) (v : Placed .expression value) :
      Placed .expression (.assign target value)
  | binaryOp (op : Json) {left right : Node} (l : Placed .expression left)
      (r : Placed .expression right) : Placed .expression (.binaryOp op left right)
  | unaryOp (op : Json) {operand : Node} (h : Placed .expression operand) :
      Placed .expression (.unaryOp op operand)
  | call (name : Json) {args : List Node} (each : ∀ e ∈ args, Placed .expression e) :
      Placed .expression (.call name args)
  | block {statements : List Node} (each : ∀ s ∈ statements, Placed .statement s) :
      Placed .statement (.block statements)
  | exprStmt {expr : Node} (h : Placed .expression expr) : Placed .statement (.exprStmt expr)
  | ifStmt {condition thenBranch elseBranch : Node} (c : Placed .expression condition)
      (t : Placed .statement thenBranch)
      (e : elseBranch.isAbsent = false → Placed .statement elseBranch) :
      Placed .statement (.ifStmt condition thenBranch elseBranch)
  | whileStmt {condition body : Node} (c : Placed .expression condition)
      (b : Placed .statement body) : Placed .statement (.whileStmt condition body)
  | forStmt {init condition post body : Node}
      (i : init.isAbsent = false → Placed .expression init)
      (c : condition.isAbsent = false → Placed .expression condition)
      (p : post.isAbsent = false → Placed .expression post) (b : Placed .statement body) :
      Placed .statement (.forStmt init condition post body)
  | loopStmt (var array : Json) {body : Node} (b : Placed .statement body) :
      Placed .statement (.loopStmt var array body)
  | returnStmt {value : Node} (v : value.isAbsent = false → Placed .expression value) :
      Placed .statement (.returnStmt value)

/-- A function of which the body has everything in its place. -/
inductive PlacedFunction : Node → Prop
  | funcDecl (name : Json) {params decls body : List Node}
      (p : ∀ n ∈ params, ∃ name typeName, n = .funcParam name typeName)
      (d : ∀ n ∈ decls, ∃ typeName name, n = .varDecl typeName name)
      (b : ∀ n ∈ body, Placed .statement n) : PlacedFunction (.funcDecl name params decls body)

/-- A program with everything in its place. Names and literals may be anything. -/
inductive PlacedProgram : Node → Prop
  | program {decls functions : List Node}
      (d : ∀ n ∈ decls, ∃ typeName name, n = .varDecl typeName name)
      (f : ∀ n ∈ functions, PlacedFunction n) : PlacedProgram (.program decls functions)

/-- There is no `for` in the tree. -/
def ForFree (n : Node) : Prop := ∀ m, n.Contains m → m.isFor = false

theorem ForFree.of_parts {n : Node} (h : n.isFor = false) (parts : ∀ p ∈ n.parts, p.ForFree) :
    n.ForFree :=
  Contains.forall_of_parts h parts

theorem ForFree.of_no_parts {n : Node} (h : n.isFor = false) (none : n.parts = []) : n.ForFree :=
  of_parts h (none ▸ List.forall_mem_nil _)

theorem ForFree.of_absent {n : Node} (h : n.isAbsent = false → n.ForFree) : n.ForFree := by
  cases n with
  | absent => exact of_no_parts rfl rfl
  | _ => exact h rfl

theorem asStatement_forFree {n : Node} (h : n.ForFree) : ∀ p ∈ n.asStatement, p.ForFree := by
  unfold asStatement
  split
  · exact List.forall_mem_nil _
  · exact List.forall_mem_singleton.2 (.of_parts rfl (List.forall_mem_singleton.2 h))

theorem orTrue_forFree {n : Node} (h : n.ForFree) : n.orTrue.ForFree := by
  unfold orTrue
  split
  · exact .of_no_parts rfl rfl
  · exact h

theorem whileForms_eq_map (ns : List Node) : whileForms ns = ns.map whileForm := by
  induction ns with
  | nil => rfl
  | cons n rest ih => rw [whileForms, ih]; rfl

theorem whileForms_forFree {ns : List Node} (h : ∀ n ∈ ns, n.whileForm.ForFree) :
    ∀ p ∈ whileForms ns, p.ForFree := by
  rw [whileForms_eq_map]
  exact List.forall_mem_map.2 h

/-- The node as the while form of a program has it at such a place. -/
def Place.written : Place → Node → Node
  | .expression, n => n
  | .statement, n => n.whileForm

theorem Placed.forFree {place : Place} {n : Node} (h : Placed place n) :
    (place.written n).ForFree := by
  have two {a b : Node} (ha : a.ForFree) (hb : b.ForFree) : ∀ p ∈ [a, b], p.ForFree :=
    List.forall_mem_cons.2 ⟨ha, List.forall_mem_singleton.2 hb⟩
  induction h with
  | literal | ident => exact .of_no_parts rfl rfl
  | arrayLit _ ih | index _ _ ih | call _ _ ih => exact .of_parts rfl ih
  | assign _ _ ih ih' | binaryOp _ _ _ ih ih' | whileStmt _ _ ih ih' =>
      exact .of_parts rfl (two ih ih')
  | unaryOp _ _ ih | exprStmt _ ih | loopStmt _ _ _ ih =>
      exact .of_parts rfl (List.forall_mem_singleton.2 ih)
  | returnStmt _ ih => exact .of_parts rfl (List.forall_mem_singleton.2 (.of_absent ih))
  | block _ ih => exact .of_parts rfl (whileForms_forFree ih)
  | @ifStmt _ _ elseBranch _ _ _ ihc iht ihe =>
      have other : elseBranch.whileForm.ForFree :=
        .of_absent fun there => ihe (elseBranch.isAbsent_whileForm ▸ there)
      exact .of_parts rfl (List.forall_mem_cons.2 ⟨ihc, two iht other⟩)
  | forStmt _ _ _ _ ihi ihc ihp ihb =>
      refine .of_parts rfl (List.forall_mem_append.2 ⟨asStatement_forFree (.of_absent ihi), ?_⟩)
      refine List.forall_mem_singleton.2 (.of_parts rfl ?_)
      refine two (orTrue_forFree (.of_absent ihc)) (.of_parts rfl ?_)
      exact List.forall_mem_cons.2 ⟨ihb, asStatement_forFree (.of_absent ihp)⟩

theorem PlacedFunction.forFree {f : Node} (h : PlacedFunction f) : f.whileFormBody.ForFree := by
  cases h with
  | funcDecl name p d b =>
      refine .of_parts rfl (List.forall_mem_append.2 ⟨List.forall_mem_append.2 ⟨?_, ?_⟩, ?_⟩)
      · intro n member
        obtain ⟨_, _, rfl⟩ := p n member
        exact .of_no_parts rfl rfl
      · intro n member
        obtain ⟨_, _, rfl⟩ := d n member
        exact .of_no_parts rfl rfl
      · exact whileForms_forFree fun n member => (b n member).forFree

theorem PlacedProgram.forFree {p : Node} (h : PlacedProgram p) : p.whileFormProgram.ForFree := by
  cases h with
  | program d f =>
      refine .of_parts rfl (List.forall_mem_append.2 ⟨?_, List.forall_mem_map.2 ?_⟩)
      · intro n member
        obtain ⟨_, _, rfl⟩ := d n member
        exact .of_no_parts rfl rfl
      · exact fun n member => (f n member).forFree

end Node

/-! ## Passes -/

theorem Act.bind_assoc {α β γ : Type} (x : Act α) (f : α → Act β) (g : β → Act γ) :
    x >>= f >>= g = x >>= fun a => f a >>= g := by
  funext s
  show Act.bind (Act.bind x f) g s = Act.bind x (fun a => Act.bind (f a) g) s
  unfold Act.bind
  rcases x s with ⟨a | e | _, t⟩ <;> rfl

namespace Machine

/-- One pass of a `for`: the body, and then the last expression unless the body has returned. -/
def pass (m : Machine) (post body : Node) (env : Environment) : Act Outcome := do
  match ← m.execute body env with
  | .next env => do
      let env ← m.evaluateOptional post env
      return .next env
  | .returned v globals => return .returned v globals

/-- The value of a condition that may be missing. -/
def conditionValue (m : Machine) (condition : Node) (env : Environment) :
    Act (Value × Environment) :=
  if condition.isAbsent then pure (.bool true, env) else m.evaluate condition env

theorem conditionHolds_eq (m : Machine) (condition : Node) (env : Environment) :
    m.conditionHolds condition env =
      m.conditionValue condition env >>= fun r => pure (r.1.isTrue, r.2) := by
  unfold conditionHolds conditionValue
  split
  · rfl
  · rfl

/-- A `for` does as a `while` does. -/
theorem forLoop_succ (m : Machine) (condition post body : Node) (rounds : Nat)
    (env : Environment) :
    m.forLoop condition post body (rounds + 1) env = (do
      let (c, env) ← m.conditionValue condition env
      if c.isTrue then
        match ← m.pass post body env with
        | .next env => m.forLoop condition post body rounds env
        | .returned v globals => return .returned v globals
      else return .next env) := by
  rw [forLoop, conditionHolds_eq, Act.bind_assoc]
  refine congrArg (m.conditionValue condition env >>= ·) (funext fun (c, env) => ?_)
  show (if c.isTrue = true then _ else _) = if c.isTrue = true then _ else _
  split
  · rw [pass, Act.bind_assoc]
    refine congrArg (m.execute body env >>= ·) (funext fun outcome => ?_)
    cases outcome with
    | next env =>
        dsimp only
        rw [Act.bind_assoc]
        rfl
    | returned v globals => rfl
  · rfl

theorem executeAll_singleton (m : Machine) (n : Node) (env : Environment) :
    m.executeAll [n] env = m.execute n env := by
  funext s
  show Act.bind (m.execute n env) _ s = _
  unfold Act.bind
  rcases m.execute n env s with ⟨(env | ⟨v, globals⟩) | e | _, t⟩ <;> rfl

end Machine

/-! ## The simulation -/

namespace Simulation

/-- Statements stand for those that they are the while form of. Neither side gives up. -/
def whileForm (short : Side) (debugLevel : Int) : Simulation where
  short
  leaves _ := False
  debugLevel
  stmt n n' := n' = n.whileForm

section

variable {T : Simulation} {ctx ctx' : Context} {fuel : Nat}

/-- The second side goes along with the first, and so it does if it is some levels deeper, unless it
    has run out of fuel and may have done so. -/
def Reaches (T : Simulation) (ctx ctx' : Context) (fuel : Nat) : Nat → Nat → Prop
  | 0, fuel' => ∀ level level', T.OnMachines (ctx.machine fuel level) (ctx'.machine fuel' level')
  | depth + 1, fuel' =>
      (∀ level level', T.OnMachines (ctx.machine fuel level) (ctx'.machine fuel' level')) ∧
      (T.short = .second ∧ fuel' = 0 ∨
        ∃ rest, fuel' = rest + 1 ∧ Reaches T ctx ctx' fuel depth rest)

variable {depth fuel' : Nat}

theorem Reaches.machines (h : T.Reaches ctx ctx' fuel depth fuel') (level level' : Nat) :
    T.OnMachines (ctx.machine fuel level) (ctx'.machine fuel' level') := by
  cases depth with
  | zero => exact h level level'
  | succ depth => exact h.1 level level'

variable {α : Type} {env env' : Environment} {level level' : Nat}

/-- One level that only the second side has. -/
theorem Reaches.execute (hc : T.OnContexts ctx ctx') (h : T.Reaches ctx ctx' fuel (depth + 1) fuel')
    {x : Act Outcome} {n : Node}
    (inside : ∀ rest, T.Reaches ctx ctx' fuel depth rest → T.Follows Outcome.Like x
      (Machine.executeNode ctx' (ctx'.machine rest (level' + 1)) n env')) :
    T.Follows Outcome.Like x (ctx'.execute fuel' level' n env') := by
  rcases h.2 with ⟨short, rfl⟩ | ⟨rest, rfl, reaches⟩
  · simp only [Context.execute]
    exact .unfinishedSecond short
  · simp only [Context.execute]
    rw [Context.enter_unbounded hc.unbounded']
    exact (inside rest reaches).amidNotes _ _

theorem Reaches.evaluate (hc : T.OnContexts ctx ctx')
    (h : T.Reaches ctx ctx' fuel (depth + 1) fuel') {x : Act (Value × Environment)} {n : Node}
    (inside : ∀ rest, T.Reaches ctx ctx' fuel depth rest → T.Follows Beside x
      (Machine.evaluateNode ctx' (ctx'.machine rest (level' + 1)) n env')) :
    T.Follows Beside x (ctx'.evaluate fuel' level' n env') := by
  rcases h.2 with ⟨short, rfl⟩ | ⟨rest, rfl, reaches⟩
  · simp only [Context.evaluate]
    exact .unfinishedSecond short
  · simp only [Context.evaluate]
    rw [Context.enter_unbounded hc.unbounded']
    exact (inside rest reaches).amidNotes _ fun r => .yielded r.1 r.2

/-- An expression that may be missing, and the statements behind it. -/
theorem Reaches.asStatement (hc : T.OnContexts ctx ctx')
    (h : T.Reaches ctx ctx' fuel (depth + 1) fuel') (node : Node) {f : Environment → Act Outcome}
    {rest : List Node} (he : env.Like env')
    (next : ∀ {env env' : Environment}, env.Like env' →
      T.Follows Outcome.Like (f env) ((ctx'.machine fuel' level').executeAll rest env')) :
    T.Follows Outcome.Like ((ctx.machine fuel level).evaluateOptional node env >>= f)
      ((ctx'.machine fuel' level').executeAll (node.asStatement ++ rest) env') := by
  unfold Machine.evaluateOptional Node.asStatement
  split
  · exact next he
  · have evaluated : T.Follows Outcome.Like
        ((ctx.machine fuel level).evaluate node env >>= fun r => pure (Outcome.next r.2))
        (ctx'.execute fuel' level' (.exprStmt node) env') := by
      refine h.execute hc fun rest reaches => ?_
      exact ((reaches.machines level (level' + 1)).evaluate node he).bindBeside
        fun _ _ _ he => .pure (.next he)
    let after (outcome : Outcome) : Act Outcome :=
      match outcome with
      | .next env => f env
      | .returned v globals => pure (.returned v globals)
    have regrouped (x : Act (Value × Environment)) :
        (x >>= fun r => pure r.2) >>= f = (x >>= fun r => pure (Outcome.next r.2)) >>= after := by
      rw [Act.bind_assoc, Act.bind_assoc]
      rfl
    have onward : T.Follows Outcome.Like (_ >>= after)
        ((ctx'.machine fuel' level').executeAll (.exprStmt node :: rest) env') :=
      evaluated.bindOutcome (fun _ _ he => next he) fun v globals => .pure (.returned v globals)
    rw [← regrouped] at onward
    exact onward

/-- A pass is the block of the body and the last expression. -/
theorem Reaches.pass (hc : T.OnContexts ctx ctx') (h : T.Reaches ctx ctx' fuel (depth + 2) fuel')
    (post : Node) {body body' : Node} (hb : T.stmt body body') (he : env.Like env') :
    T.Follows Outcome.Like ((ctx.machine fuel level).pass post body env)
      (ctx'.execute fuel' level' (.block (body' :: post.asStatement)) env') := by
  refine h.execute hc fun rest reaches => ?_
  refine ((reaches.machines level (level' + 1)).execute hb he).bindOutcome (fun env env' he => ?_)
    fun v globals => .pure (.returned v globals)
  rw [← List.append_nil post.asStatement]
  exact reaches.asStatement hc post he fun he => .pure (.next he)

theorem Reaches.conditionValue (hc : T.OnContexts ctx ctx')
    (h : T.Reaches ctx ctx' fuel (depth + 1) fuel') (condition : Node) (he : env.Like env') :
    T.Follows Beside ((ctx.machine fuel level).conditionValue condition env)
      (ctx'.evaluate fuel' level' condition.orTrue env') := by
  unfold Machine.conditionValue Node.orTrue
  split
  · exact h.evaluate hc fun rest reaches => .pure ⟨rfl, he⟩
  · exact (h.machines level level').evaluate condition he

theorem Reaches.forLoop (hc : T.OnContexts ctx ctx') (h : T.Reaches ctx ctx' fuel (depth + 3) fuel')
    (condition post : Node) {body body' : Node} (hb : T.stmt body body') (he : env.Like env') :
    T.Follows Outcome.Like ((ctx.machine fuel level).forLoop condition post body fuel env)
      (ctx'.execute fuel' level'
        (.whileStmt condition.orTrue (.block (body' :: post.asStatement))) env') := by
  refine h.execute hc fun rest reaches => ?_
  refine loop_follows (fun _ => rfl) (fun _ => rfl) (fun rounds rounds' behind env env' he => ?_)
    rest fuel (reaches.machines level level').rounds he
  rw [Machine.forLoop_succ, Machine.whileLoop]
  refine (reaches.conditionValue hc condition he).bindBeside fun c env env' he => ?_
  dsimp only
  split
  · exact (reaches.pass hc post hb he).bindOutcome (fun _ _ he => behind he) fun v globals =>
      .pure (.returned v globals)
  · exact .pure (.next he)

theorem Reaches.forStmt (hc : T.OnContexts ctx ctx') (h : T.Reaches ctx ctx' fuel (depth + 3) fuel')
    (init condition post : Node) {body body' : Node} (hb : T.stmt body body') (he : env.Like env') :
    T.Follows Outcome.Like (ctx.execute (fuel + 1) level (.forStmt init condition post body) env)
      (ctx'.execute (fuel' + 1) level' (.block (init.asStatement ++
        [.whileStmt condition.orTrue (.block (body' :: post.asStatement))])) env') := by
  refine execute_follows_of_node hc ?_
  refine h.asStatement hc init he fun he => ?_
  rw [Machine.executeAll_singleton]
  exact h.forLoop hc condition post hb he

end

variable {short : Side} {debugLevel : Int}

theorem whileForms_follow (ns : List Node) :
    List.Forall₂ (whileForm short debugLevel).stmt ns (Node.whileForms ns) := by
  induction ns with
  | nil => exact .nil
  | cons n rest ih => exact .cons rfl ih

theorem whileForm_recasts {n : Node} (other : n.isFor = false) :
    (whileForm short debugLevel).Recasts n n.whileForm := by
  cases n with
  | block statements => exact .block (whileForms_follow statements)
  | ifStmt condition t e => exact .ifStmt condition rfl rfl e.isAbsent_whileForm
  | whileStmt condition body => exact .whileStmt condition rfl
  | forStmt => cases other
  | loopStmt var array body => exact .loopStmt var array rfl
  | exprStmt expr => exact .exprStmt expr
  | returnStmt value => exact .returnStmt value
  | _ => exact .other rfl rfl rfl

theorem whileForm_function (f : Node) :
    (whileForm short debugLevel).Function f f.whileFormBody := by
  cases f with
  | funcDecl name params decls body =>
      exact .funcDecl name params decls (whileForms_follow body)
  | _ => exact .other nofun

theorem whileForm_programs (p : Node) :
    (whileForm short debugLevel).Programs p p.whileFormProgram := by
  cases p with
  | program decls functions =>
      refine .program decls (List.forall₂_map_right_iff.2 ?_)
      exact List.forall₂_same.2 fun f _ => whileForm_function f
  | _ => exact .other nofun

section

variable {ctx ctx' : Context}

/-- One more level, by the rules of the language but for a `for`. -/
theorem whileForm_step (hc : (whileForm short debugLevel).OnContexts ctx ctx') {fuel fuel' : Nat}
    (h : (whileForm short debugLevel).Reaches ctx ctx' fuel 3 fuel') (level level' : Nat) :
    (whileForm short debugLevel).OnMachines (ctx.machine (fuel + 1) level)
      (ctx'.machine (fuel' + 1) level') := by
  have inside := h.machines (level + 1) (level' + 1)
  refine ⟨fun node _ _ he => evaluate_follows hc inside node he,
    fun {n n' env env'} hn he => ?_, ?_⟩
  · cases (hn : n' = n.whileForm)
    cases kind : n.isFor with
    | false => exact execute_follows hc inside (whileForm_recasts kind) he
    | true =>
        cases n with
        | forStmt init condition post body => exact h.forStmt hc init condition post rfl he
        | _ => cases kind
  · have rounds := inside.rounds
    cases short with
    | first => exact Nat.succ_le_succ rounds
    | second => exact Nat.succ_le_succ rounds

/-- With four times the fuel, the while form does not run out before the program does. -/
theorem whileForm_machines_first (hc : (whileForm .first debugLevel).OnContexts ctx ctx') :
    ∀ fuel fuel', 4 * fuel ≤ fuel' → ∀ level level',
      (whileForm .first debugLevel).OnMachines (ctx.machine fuel level) (ctx'.machine fuel' level')
  | 0, fuel', _, level, level' => by
      refine ⟨fun node env env' _ => ?_, fun {n n' env env'} _ _ => ?_, Nat.zero_le fuel'⟩
      · simp only [Context.machine, Context.evaluate]
        exact .unfinishedFirst rfl (evaluate_grows hc.unbounded' fuel' level' node env')
      · simp only [Context.machine, Context.execute]
        exact .unfinishedFirst rfl (execute_grows hc.unbounded' fuel' level' n' env')
  | fuel + 1, fuel', le, level, level' => by
      obtain ⟨rest, rfl⟩ : ∃ rest, fuel' = rest + 4 := ⟨fuel' - 4, by omega⟩
      have below (k : Nat) := whileForm_machines_first hc fuel (rest + k) (by omega)
      refine whileForm_step hc ⟨below 3, .inr ⟨rest + 2, rfl, below 2, .inr ?_⟩⟩ level level'
      exact ⟨rest + 1, rfl, below 1, .inr ⟨rest, rfl, below 0⟩⟩

/-- With the same fuel, the program does not run out before its while form does. -/
theorem whileForm_machines_second (hc : (whileForm .second debugLevel).OnContexts ctx ctx')
    (fuel' : Nat) : ∀ fuel, fuel' ≤ fuel → ∀ level level',
      (whileForm .second debugLevel).OnMachines (ctx.machine fuel level)
        (ctx'.machine fuel' level') := by
  induction fuel' using Nat.strongRecOn with
  | ind fuel' ih =>
      intro fuel le level level'
      cases fuel' with
      | zero =>
          refine ⟨fun node env env' _ => ?_, fun {n n' env env'} _ _ => ?_, le⟩
          all_goals
            simp only [Context.machine, Context.evaluate, Context.execute]
            exact .unfinishedSecond rfl
      | succ fuel' =>
          obtain ⟨fuel, rfl⟩ : ∃ rest, fuel = rest + 1 := ⟨fuel - 1, by omega⟩
          have reaches (depth : Nat) : ∀ rest, rest ≤ fuel' →
              (whileForm .second debugLevel).Reaches ctx ctx' fuel depth rest := by
            induction depth with
            | zero => exact fun rest le => ih rest (by omega) fuel (by omega)
            | succ depth ihd =>
                intro rest le
                refine ⟨ih rest (by omega) fuel (by omega), ?_⟩
                cases rest with
                | zero => exact .inl ⟨rfl, rfl⟩
                | succ rest => exact .inr ⟨rest, rfl, ihd rest (by omega)⟩
          exact whileForm_step hc (reaches 3 fuel' (Nat.le_refl fuel')) level level'

end

end Simulation

/-! ## Runs -/

theorem Session.whileForm_sessions (session : Session) (limit : Int) (short : Side) :
    (Simulation.whileForm short session.options.debugLevel).OnSessions
      (session.limited limit).options (session.limited limit).options :=
  ⟨rfl, rfl, rfl, rfl, .inl rfl⟩

/-- If the program ends, so does its while form with four times the fuel. -/
theorem Session.whileForm_ends (session : Session) (limit : Int) (program : Node) {fuel : Nat}
    (ended : ((session.limited limit).run fuel program).1 ≠ .unfinished) :
    ((session.limited limit).run (4 * fuel) program.whileFormProgram).1 ≠ .unfinished := by
  have sessions := session.whileForm_sessions limit .first
  have ends : (Simulation.whileForm .first session.options.debugLevel).RunsEnd
      ((session.limited limit).run fuel program)
      ((session.limited limit).run (4 * fuel) program.whileFormProgram) := by
    refine Simulation.run_follows sessions session.studio (Simulation.whileForm_programs program) ?_
    intro table table' tables
    exact Simulation.whileForm_machines_first (sessions.contexts tables) fuel _ (Nat.le_refl _) 0 0
  generalize (session.limited limit).run fuel program = p at ended ends
  generalize (session.limited limit).run (4 * fuel) program.whileFormProgram = q at ends ⊢
  cases ends with
  | done | failed => nofun
  | left leaves => exact leaves.elim
  | cutFirst => exact absurd rfl ended
  | cutSecond short => cases short

/-- If the while form ends, then so does the program with the same fuel, and it does the same. -/
theorem Session.whileForm_alike (session : Session) (limit : Int) (program : Node) {fuel : Nat}
    (ended : ((session.limited limit).run fuel program.whileFormProgram).1 ≠ .unfinished) :
    ((session.limited limit).run fuel program.whileFormProgram).1 =
        ((session.limited limit).run fuel program).1 ∧
      ((session.limited limit).run fuel program).2.studio.Like
        ((session.limited limit).run fuel program.whileFormProgram).2.studio := by
  have sessions := session.whileForm_sessions limit .second
  have ends : (Simulation.whileForm .second session.options.debugLevel).RunsEnd
      ((session.limited limit).run fuel program)
      ((session.limited limit).run fuel program.whileFormProgram) := by
    refine Simulation.run_follows sessions session.studio (Simulation.whileForm_programs program) ?_
    intro table table' tables
    exact Simulation.whileForm_machines_second (sessions.contexts tables) fuel _ (Nat.le_refl _) 0 0
  generalize (session.limited limit).run fuel program = p at ends ⊢
  generalize (session.limited limit).run fuel program.whileFormProgram = q at ended ends ⊢
  cases ends with
  | done v h => exact ⟨rfl, h⟩
  | failed e h => exact ⟨rfl, h⟩
  | left leaves => exact leaves.elim
  | cutFirst short => cases short
  | cutSecond => exact absurd rfl ended

/-- A `for` is its while form, in any session and with any limit on calls. If everything in the
    program is in its place there is no `for` in its while form. One of the two runs ends if and
    only if the other does, and then they have the same value or the same failure and have done the
    same. -/
theorem run_whileForm (session : Session) (limit : Int) (program : Node) :
    (program.PlacedProgram → ∀ m, program.whileFormProgram.Contains m → m.isFor = false) ∧
    ((∃ fuel, ((session.limited limit).run fuel program).1 ≠ .unfinished) ↔
      ∃ fuel, ((session.limited limit).run fuel program.whileFormProgram).1 ≠ .unfinished) ∧
    ∀ fuel fuel', ((session.limited limit).run fuel program).1 ≠ .unfinished →
      ((session.limited limit).run fuel' program.whileFormProgram).1 ≠ .unfinished →
      ((session.limited limit).run fuel' program.whileFormProgram).1 =
          ((session.limited limit).run fuel program).1 ∧
        ((session.limited limit).run fuel program).2.studio.Like
          ((session.limited limit).run fuel' program.whileFormProgram).2.studio := by
  refine ⟨fun placed => placed.forFree, ⟨?_, ?_⟩, fun fuel fuel' ended ended' => ?_⟩
  · rintro ⟨fuel, ended⟩
    exact ⟨4 * fuel, session.whileForm_ends limit program ended⟩
  · rintro ⟨fuel, ended⟩
    have same := (session.whileForm_alike limit program ended).1
    exact ⟨fuel, same ▸ ended⟩
  · -- with the fuel of both, each of the two runs still ends as it does
    have left := Session.run_of_le (Nat.le_max_left fuel fuel') ended
    have right := Session.run_of_le (Nat.le_max_right fuel fuel') ended'
    rw [← left, ← right]
    refine session.whileForm_alike limit program ?_
    rw [right]
    exact ended'

/-- One `for` inside another, and one with hardly any parts that is left by a `return` before its
    last expression. -/
theorem run_whileForm_nested : ∃ session program,
    session = Session.new {} ∧
    program = Node.program []
      [.funcDecl (.text "first") [] []
        [.forStmt .absent .absent
          (.call (.text "print") [.literal (.plain (.int 9)) (.text "int")])
          (.returnStmt (.literal (.plain (.int 7)) (.text "int")))],
       .funcDecl (.text "main") []
        [.varDecl (.text "int") (.text "i"), .varDecl (.text "int") (.text "j")]
        [.forStmt
          (.assign (.ident (.text "i")) (.literal (.plain (.int 1)) (.text "int")))
          (.binaryOp (.text "<") (.ident (.text "i")) (.literal (.plain (.int 3)) (.text "int")))
          (.assign (.ident (.text "i")) (.binaryOp (.text "+") (.ident (.text "i"))
            (.literal (.plain (.int 1)) (.text "int"))))
          (.forStmt .absent (.binaryOp (.text "<") (.ident (.text "j")) (.ident (.text "i")))
            .absent (.block
              [.exprStmt (.assign (.ident (.text "j")) (.binaryOp (.text "+")
                (.ident (.text "j")) (.literal (.plain (.int 1)) (.text "int")))),
               .exprStmt (.call (.text "print") [.ident (.text "j")])])),
         .returnStmt (.call (.text "first") [])]] ∧
    program.PlacedProgram ∧
    ((session.limited 2).run 20 program).1.isDone ∧
    ((session.limited 2).run 20 program).2.studio.console = #[.printed "1", .printed "2"] ∧
    (∀ m, program.whileFormProgram.Contains m → m.isFor = false) ∧
    ∃ fuel, ((session.limited 2).run fuel program.whileFormProgram).1 =
        ((session.limited 2).run 20 program).1 ∧
      ((session.limited 2).run 20 program).2.studio.Like
        ((session.limited 2).run fuel program.whileFormProgram).2.studio := by
  refine ⟨_, _, rfl, rfl, ?placed, ?ended, by decide +kernel, ?_⟩
  · repeat' first
      | exact List.forall_mem_nil _
      | refine List.forall_mem_cons.2 ⟨?_, ?_⟩
      | exact ⟨_, _, rfl⟩
      | (intro there; cases there)
      | constructor
  · decide +kernel
  obtain ⟨forFree, ends, alike⟩ := run_whileForm (Session.new {}) 2 _
  have ended := Ending.ne_unfinished ?ended
  obtain ⟨fuel, ended'⟩ := ends.1 ⟨20, ended⟩
  exact ⟨forFree ?placed, fuel, alike 20 fuel ended ended'⟩

end Cadence
