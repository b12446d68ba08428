/-
  Two runs in lockstep.

  If two machines agree on the parts of a node and on the bodies of functions, the rules of the
  language make them agree on the node: `evaluateNode_agrees` and `executeNode_agrees`. The two
  closings of the recursion are by induction on the fuel. `machine_agrees` is the one for machines
  of which the first may run out of fuel before the second.
-/
import Cadence.Proofs.Coupling
import Cadence.Proofs.Lens

namespace Cadence

/-! ## Names stay declared -/

theorem Reference.storeFrom_declared {env env' : Environment} {n m : Name} {v : Value}
    {seen : List Name.Key} (h : storeFrom env n v seen = .ok env')
    (declared : (env.get? m).isSome = true) : (env'.get? m).isSome = true := by
  fun_induction storeFrom env n v seen with
  | case1 | case2 | case4 => cases h
  | case3 _ _ _ _ _ _ _ _ _ _ ih => exact ih h
  | case5 n v seen held notRef bound =>
      obtain ⟨env₁, set, binds⟩ := Environment.set_spec bound v
      rw [set] at h
      cases h
      rw [binds m]
      split
      · rfl
      · exact declared

/-- A name that has been written to belongs to a frame. -/
theorem Reference.store_scope {env env' : Environment} {n : Name} {v : Value}
    (h : store env n v = .ok env') : ∃ scope, env'.scopeOf n = .ok scope := by
  have before : (env.get? n).isSome = true := by
    unfold store at h
    rw [storeFrom] at h
    split at h
    · cases h
    · next bound => rw [bound]; rfl
    · next bound => rw [bound]; rfl
  have after : (env'.get? n).isSome = true := storeFrom_declared h before
  unfold Environment.get? at after
  unfold Environment.scopeOf Environment.scope?
  cases inside : env'.locals.get? n with
  | some old => exact ⟨.local, rfl⟩
  | none =>
      rw [inside] at after
      cases outside : env'.globals.get? n with
      | some old => exact ⟨.global, rfl⟩
      | none => rw [outside] at after; cases after

namespace Coupling.Kept

variable {ι : Type} {C : Coupling} {I : Invariant ι} {ctx ctx' : Context} {m m' : Machine} {d : Int}

/-! ## Sequences -/

theorem evaluateAll_agrees (hm : m.Respects I) {i : ι} :
    ∀ {nodes : List Node} {env : Environment}, (∀ n ∈ nodes, C.OnExpression I m m' d i n) →
      I.env i env → C.Agrees I d (m.evaluateAll nodes env) (m'.evaluateAll nodes env)
  | [], env, _, _ => .pure ([], env)
  | node :: rest, env, parts, he => by
      obtain ⟨onNode, onRest⟩ := List.forall_mem_cons.1 parts
      unfold Machine.evaluateAll
      refine onNode.bind hm he fun v env _ he => ?_
      have kept := Invariant.Kept.evaluateAll_keeps hm (fun n h => (onRest n h).known) he
      exact (evaluateAll_agrees hm onRest he).bind kept fun r _ => .pure _

theorem executeAll_agrees (hm : m.Respects I) {i : ι} :
    ∀ {nodes : List Node} {env : Environment}, (∀ n ∈ nodes, C.OnStatement I m m' d i n) →
      I.env i env → C.Agrees I d (m.executeAll nodes env) (m'.executeAll nodes env)
  | [], env, _, _ => .pure (Outcome.next env)
  | node :: rest, env, parts, he => by
      obtain ⟨onNode, onRest⟩ := List.forall_mem_cons.1 parts
      unfold Machine.executeAll
      refine onNode.bind hm he fun outcome ho => ?_
      cases outcome with
      | next env => exact executeAll_agrees hm onRest ho
      | returned v globals => exact .pure _

/-! ## Arrays and assignment -/

theorem itemsOf_agrees (hI : I.Kept ctx) {i : ι} {env : Environment} (name : Name)
    (use : Fault.ArrayUse) (he : I.env i env) :
    C.Agrees I d (Machine.itemsOf env name use) (Machine.itemsOf env name use) := by
  unfold Machine.itemsOf
  refine .lift_bind (hI.resolve i env name he) fun v _ _ => ?_
  cases v with
  | array items => exact .pure items
  | _ => exact .fail _

theorem subscript_agrees (hI : I.Kept ctx) (hm : m.Respects I) {i : ι} (array : Json)
    {indices : List Node} {env : Environment}
    (parts : ∀ n ∈ indices, C.OnExpression I m m' d i n) (he : I.env i env) :
    C.Agrees I d (m.subscript array indices env) (m'.subscript array indices env) := by
  match indices, parts with
  | [], _ => exact .fail _
  | [node], parts =>
      unfold Machine.subscript
      refine (parts node List.mem_cons_self).bind hm he fun v env hv _ => ?_
      cases v with
      | int n => exact .pure (n, env)
      | _ => exact .lift_bind (hI.tag _ hv) fun tag _ _ => .fail _
  | _ :: _ :: _, _ => exact .fail _

theorem evaluateIndex_agrees (hI : I.Kept ctx) (hm : m.Respects I) {i : ι} {array : Json}
    {indices : List Node} {env : Environment} (hn : I.expr i (.index array indices))
    (parts : ∀ n ∈ indices, C.OnExpression I m m' d i n) (he : I.env i env) :
    C.Agrees I d (m.evaluateIndex array indices env) (m'.evaluateIndex array indices env) := by
  have kept := hI.subscript_keeps hm array (fun n h => (parts n h).known) he
  unfold Machine.evaluateIndex
  refine .lift_bind (hI.lookups i _ (.inl hn) array List.mem_cons_self) fun name _ _ => ?_
  refine (itemsOf_agrees hI name .read he).bind (hI.itemsOf_keeps name .read he) fun _ _ => ?_
  refine (subscript_agrees hI hm array parts he).bind kept ?_
  rintro ⟨index, env⟩ he
  refine .lift_bind (hI.resolve i env name he) fun held _ hheld => ?_
  exact .lift_bind (hI.element held name index hheld) fun v _ _ => .pure (v, env)

theorem assignName_agrees (hI : I.Kept ctx) (hC : C.Kept I ctx ctx') {i : ι} {target : Json}
    {e : Node} {value : Value} {env : Environment} (hn : I.expr i (.assign (.ident target) e))
    (hv : I.value value) (he : I.env i env) :
    C.Agrees I d (Machine.assignName ctx target value env)
      (Machine.assignName ctx' target value env) := by
  unfold Machine.assignName
  refine .lift_bind (hI.lookups i _ (.inl hn) target List.mem_cons_self) fun name hname _ => ?_
  refine .lift_bind (hI.resolve i env name he) fun held hheld hh => ?_
  refine .lift_bind (hI.checkAssignable name held value hh hv) ?_
  intro _ hcheck _
  refine .lift_bind (hI.assignName i target e env name held value hn hname he hheld hcheck hv) ?_
  intro env stored he
  -- the name has just been written to, so the frame that it belongs to can be named
  obtain ⟨scope, found⟩ := Reference.store_scope stored
  rw [found]
  exact hC.debugText_bind hI (by decide) hv (.pure (value, env))

theorem assignIndex_agrees (hI : I.Kept ctx) (hC : C.Kept I ctx ctx') (hm : m.Respects I) {i : ι}
    {array : Json} {indices : List Node} {e : Node} {value : Value} {env : Environment}
    (hn : I.expr i (.assign (.index array indices) e))
    (parts : ∀ n ∈ indices, C.OnExpression I m m' d i n) (hv : I.value value)
    (he : I.env i env) :
    C.Agrees I d (Machine.assignIndex ctx m array indices value env)
      (Machine.assignIndex ctx' m' array indices value env) := by
  have kept := hI.subscript_keeps hm array (fun n h => (parts n h).known) he
  unfold Machine.assignIndex
  rw [hC.nesting]
  refine .lift_bind (hI.lookups i _ (.inl hn) array List.mem_cons_self) fun name hname _ => ?_
  refine (itemsOf_agrees hI name .assign he).bind (hI.itemsOf_keeps name .assign he) ?_
  intro _ _
  refine (subscript_agrees hI hm array parts he).bind kept ?_
  rintro ⟨index, env⟩ he
  refine (itemsOf_agrees hI name .assign he).bind (hI.itemsOf_keeps name .assign he) ?_
  intro items hitems
  have held : I.value (.array items) := (hI.resolve i env name he).of_ok hitems
  refine .lift_bind (hI.replaceElement items name index value held hv) fun updated eq hu => ?_
  refine .lift_bind (hI.assignIndex i array indices e env name items index value updated hn hname
    he hitems eq hu) fun env _ _ => ?_
  exact hC.debugText_bind hI (by decide) hv (.pure (value, env))

theorem assign_agrees (hI : I.Kept ctx) (hC : C.Kept I ctx ctx') (hm : m.Respects I) {i : ι}
    {target e : Node} {value : Value} {env : Environment} (hn : I.expr i (.assign target e))
    (parts : ∀ n ∈ (Node.assign target e).expressions, C.OnExpression I m m' d i n)
    (hv : I.value value) (he : I.env i env) :
    C.Agrees I d (Machine.assign ctx m target value env)
      (Machine.assign ctx' m' target value env) := by
  cases target with
  | ident name => exact assignName_agrees hI hC hn hv he
  | index array indices =>
      exact assignIndex_agrees hI hC hm hn (List.forall_mem_cons.1 parts).2 hv he
  | _ => exact .fail _

/-! ## Calls -/

theorem finishCall_agrees (hI : I.Kept ctx) (hC : C.Kept I ctx ctx') {i : ι} (name : Json)
    {outcome : Outcome} (ho : I.outcome i outcome) :
    C.Agrees I d (Machine.finishCall ctx name outcome) (Machine.finishCall ctx' name outcome) := by
  cases outcome with
  | next env => exact .pure _
  | returned v globals => exact hC.debugText_bind hI (by decide) ho.1 (.pure _)

theorem callFunction_agrees (hI : I.Kept ctx) (hC : C.Kept I ctx ctx') (hm : m.Respects I)
    (bodies : C.OnBodies I ctx m m' d) {name : Name} {function : Node} {args : List Value}
    {globals : Frame} (found : ctx.functions.get? name = some function)
    (hargs : ∀ v ∈ args, I.value v) (hg : I.globals globals) :
    C.Agrees I d (Machine.callFunction ctx m function args globals)
      (Machine.callFunction ctx' m' function args globals) := by
  cases function with
  | funcDecl f params decls body =>
      unfold Machine.callFunction
      rw [hC.maxDepth]
      refine (hC.even.note_agrees (.called f args)).bind (hI.note_keeps hargs) fun _ _ => ?_
      refine (Agrees.require _ _).bind (hI.require_keeps _ _) fun _ len => ?_
      have frame := hI.activate name f params decls body args globals found len hargs hg
      refine .lift_bind frame.unbind fun bound _ hb => .lift_bind hb ?_
      rintro locals - ⟨i, he, hbody⟩
      refine hC.debugTexts_bind hI (by decide) hargs (.readDepth_bind ?_)
      refine (Agrees.require _ _).bind (hI.require_keeps _ _) fun _ free => ?_
      have inside := executeAll_agrees hm (fun st member =>
        bodies free name f params decls body found i st member (hbody st member)) he
      refine (inCall_agrees hI hC inside).bind
        (hI.inCall_keeps (Invariant.Kept.executeAll_keeps hm hbody he)) fun outcome ho => ?_
      exact finishCall_agrees hI hC f ho
  | _ => exact .fail _

theorem checkArity_agrees (b : Builtin) (args : List Value) :
    C.Agrees I d (Machine.checkArity b args) (Machine.checkArity b args) := by
  unfold Machine.checkArity
  cases b.arity with
  | none => exact .pure ()
  | some n => exact .require _ _

theorem callBuiltin_agrees (hI : I.Kept ctx) (hC : C.Kept I ctx ctx') (b : Builtin)
    {args : List Value} (hargs : ∀ v ∈ args, I.value v) :
    C.Agrees I d (Machine.callBuiltin ctx b args) (Machine.callBuiltin ctx' b args) := by
  unfold Machine.callBuiltin
  refine (checkArity_agrees b args).bind (hI.checkArity_keeps b args) fun _ _ => ?_
  refine hC.debugTexts_bind hI (by decide) hargs ?_
  rw [hC.room]
  exact hC.even.perform_agrees ctx.room b args

theorem evaluateCall_agrees (hI : I.Kept ctx) (hC : C.Kept I ctx ctx') (hm : m.Respects I)
    (bodies : C.OnBodies I ctx m m' d) {i : ι} {function : Json} {args : List Node}
    {env : Environment} (hn : I.expr i (.call function args))
    (parts : ∀ n ∈ args, C.OnExpression I m m' d i n) (he : I.env i env) :
    C.Agrees I d (Machine.evaluateCall ctx m function args env)
      (Machine.evaluateCall ctx' m' function args env) := by
  have given := evaluateAll_agrees hm parts he
  have kept := Invariant.Kept.evaluateAll_keeps hm (fun n h => (parts n h).known) he
  unfold Machine.evaluateCall
  refine .lift_bind (hI.lookups i _ (.inl hn) function List.mem_cons_self) fun name _ _ => ?_
  cases builtin : Builtin.named? name with
  | some b =>
      refine given.bind kept ?_
      rintro ⟨vs, env⟩ ⟨⟨-, hvs⟩, -⟩
      exact (callBuiltin_agrees hI hC b hvs).bind (hI.callBuiltin_keeps b hvs) fun v _ => .pure _
  | none =>
      dsimp only
      rw [hC.functions name builtin]
      cases found : ctx.functions.get? name with
      | none => exact .fail _
      | some decl =>
          refine given.bind kept ?_
          rintro ⟨vs, env⟩ ⟨⟨-, hvs⟩, he⟩
          have hg := hI.globals i env he
          exact (callFunction_agrees hI hC hm bodies found hvs hg).bind
            (hI.callFunction_keeps hm found hvs hg) fun r _ => .pure _

/-! ## Expressions -/

theorem evaluateNode_agrees (hI : I.Kept ctx) (hC : C.Kept I ctx ctx') (hm : m.Respects I) {i : ι}
    {node : Node} {env : Environment} (bodies : C.OnBodies I ctx m m' d)
    (parts : ∀ p ∈ node.expressions, C.OnExpression I m m' d i p) (hn : I.expr i node)
    (he : I.env i env) :
    C.Agrees I d (Machine.evaluateNode ctx m node env)
      (Machine.evaluateNode ctx' m' node env) := by
  cases node with
  | literal content kind =>
      exact .lift_bind (hI.literal i content kind hn) fun v _ _ => .pure (v, env)
  | ident name =>
      refine .lift_bind (hI.lookups i _ (.inl hn) name List.mem_cons_self) fun name _ _ => ?_
      exact .lift_bind (hI.resolve i env name he) fun v _ _ => .pure (v, env)
  | arrayLit elements =>
      have kept := Invariant.Kept.evaluateAll_keeps hm (fun n h => (parts n h).known) he
      refine (evaluateAll_agrees hm parts he).bind kept ?_
      rintro ⟨vs, env⟩ ⟨⟨len, hvs⟩, -⟩
      exact .lift_bind (hI.arrayLit i elements vs hn len hvs) fun v _ _ => .pure (v, env)
  | index array indices => exact evaluateIndex_agrees hI hm hn parts he
  | assign target value =>
      have member : value ∈ (Node.assign target value).expressions := by
        cases target <;> simp [Node.expressions]
      refine (parts value member).bind hm he fun v env hv he => ?_
      exact assign_agrees hI hC hm hn parts hv he
  | binaryOp op left right =>
      refine (parts left (by simp [Node.expressions])).bind hm he fun a env ha he => ?_
      refine (parts right (by simp [Node.expressions])).bind hm he fun b env hb _ => ?_
      exact .lift_bind (hI.binary i op left right a b hn ha hb) fun v _ _ => .pure (v, env)
  | unaryOp op operand =>
      refine (parts operand (by simp [Node.expressions])).bind hm he fun a env ha _ => ?_
      exact .lift_bind (hI.unary i op operand a hn ha) fun v _ _ => .pure (v, env)
  | call name args => exact evaluateCall_agrees hI hC hm bodies hn parts he
  | _ => exact .fail _

/-! ## Statements -/

/-- The first loop may run out of rounds before the second. -/
theorem whileLoop_agrees (hm : m.Respects I) (cut : C.cut) {i : ι} {condition body : Node}
    (onCondition : C.OnExpression I m m' d i condition) (onBody : C.OnStatement I m m' d i body) :
    ∀ {rounds rounds' : Nat} {env : Environment}, rounds ≤ rounds' → I.env i env →
      C.Agrees I d (m.whileLoop condition body rounds env)
        (m'.whileLoop condition body rounds' env)
  | 0, _, _, _, _ => fun _ _ _ _ => .cut cut
  | rounds + 1, 0, _, le, _ => absurd le (by omega)
  | rounds + 1, rounds' + 1, env, le, he => by
      unfold Machine.whileLoop
      refine onCondition.bind hm he fun c env _ he => ?_
      dsimp only
      split
      · refine onBody.bind hm he fun outcome ho => ?_
        cases outcome with
        | next env =>
            exact whileLoop_agrees hm cut onCondition onBody (Nat.le_of_succ_le_succ le) ho
        | returned v globals => exact .pure _
      · exact .pure _

theorem evaluateOptional_agrees (hm : m.Respects I) {i : ι} {node : Node} {env : Environment}
    (onNode : node.isAbsent = false → C.OnExpression I m m' d i node) (he : I.env i env) :
    C.Agrees I d (m.evaluateOptional node env) (m'.evaluateOptional node env) := by
  unfold Machine.evaluateOptional
  split
  · exact .pure env
  · next there => exact (onNode (by simpa using there)).bind hm he fun _ _ _ _ => .pure _

theorem conditionHolds_agrees (hm : m.Respects I) {i : ι} {condition : Node} {env : Environment}
    (onCondition : condition.isAbsent = false → C.OnExpression I m m' d i condition)
    (he : I.env i env) :
    C.Agrees I d (m.conditionHolds condition env) (m'.conditionHolds condition env) := by
  unfold Machine.conditionHolds
  split
  · exact .pure _
  · next there => exact (onCondition (by simpa using there)).bind hm he fun _ _ _ _ => .pure _

theorem forLoop_agrees (hm : m.Respects I) (cut : C.cut) {i : ι} {condition post body : Node}
    (onCondition : condition.isAbsent = false → C.OnExpression I m m' d i condition)
    (onPost : post.isAbsent = false → C.OnExpression I m m' d i post)
    (onBody : C.OnStatement I m m' d i body) :
    ∀ {rounds rounds' : Nat} {env : Environment}, rounds ≤ rounds' → I.env i env →
      C.Agrees I d (m.forLoop condition post body rounds env)
        (m'.forLoop condition post body rounds' env)
  | 0, _, _, _, _ => fun _ _ _ _ => .cut cut
  | rounds + 1, 0, _, le, _ => absurd le (by omega)
  | rounds + 1, rounds' + 1, env, le, he => by
      have keptCondition := Invariant.Kept.conditionHolds_keeps hm
        (fun there => (onCondition there).known) he
      unfold Machine.forLoop
      refine (conditionHolds_agrees hm onCondition he).bind keptCondition ?_
      rintro ⟨holds, env⟩ he
      dsimp only
      split
      · refine onBody.bind hm he fun outcome ho => ?_
        cases outcome with
        | next env =>
            have keptPost := Invariant.Kept.evaluateOptional_keeps hm
              (fun there => (onPost there).known) ho
            refine (evaluateOptional_agrees hm onPost ho).bind keptPost fun env he => ?_
            exact forLoop_agrees hm cut onCondition onPost onBody (Nat.le_of_succ_le_succ le) he
        | returned v globals => exact .pure _
      · exact .pure _

theorem elementLoop_agrees (hI : I.Kept ctx) (hm : m.Respects I) {i : ι} {j k : Json} {body : Node}
    {var array : Name} (hn : I.stmt i (.loopStmt j k body)) (hvar : Operator.nameOf j = .ok var)
    (harray : Operator.nameOf k = .ok array) (has : I.HasArray i array)
    (onBody : C.OnStatement I m m' d i body) :
    ∀ (count : Nat) {index : Int} {env : Environment}, 0 ≤ index → I.env i env →
      C.Agrees I d (m.elementLoop var array body count index env)
        (m'.elementLoop var array body count index env)
  | 0, _, _, _, _ => .pure _
  | count + 1, index, env, pos, he => by
      unfold Machine.elementLoop
      refine .lift_bind (hI.bindElement i j k body env var array index hn hvar harray has he pos) ?_
      intro env _ he
      refine onBody.bind hm he fun outcome ho => ?_
      cases outcome with
      | next env => exact elementLoop_agrees hI hm hn hvar harray has onBody count (by omega) ho
      | returned v globals => exact .pure _

theorem executeLoop_agrees (hI : I.Kept ctx) (hm : m.Respects I) {i : ι} {var array : Json}
    {body : Node} {env : Environment} (hn : I.stmt i (.loopStmt var array body))
    (onBody : C.OnStatement I m m' d i body) (he : I.env i env) :
    C.Agrees I d (m.executeLoop var array body env) (m'.executeLoop var array body env) := by
  have looked := hI.lookups i _ (.inr hn)
  unfold Machine.executeLoop
  refine (Agrees.require _ _).bind (hI.require_keeps _ _) fun _ _ => ?_
  refine .lift_bind (looked array (by simp [Node.lookups])) fun arrayName harray _ => ?_
  refine (itemsOf_agrees hI arrayName .loop he).bind (hI.itemsOf_keeps arrayName .loop he) ?_
  intro items found
  split
  · exact .pure _
  · refine .lift_bind (looked var List.mem_cons_self) fun varName hvar _ => ?_
    have has : I.HasArray i arrayName := ⟨env, items, he, found⟩
    exact elementLoop_agrees hI hm hn hvar harray has onBody items.size (by omega) he

theorem executeNode_agrees (hI : I.Kept ctx) (hC : C.Kept I ctx ctx') (hm : m.Respects I) {i : ι}
    {node : Node} {env : Environment} (parts : C.Parts I m m' d i node) (hn : I.stmt i node)
    (he : I.env i env) :
    C.Agrees I d (Machine.executeNode ctx m node env) (Machine.executeNode ctx' m' node env) := by
  have onPart := parts.expressions
  have onInner := parts.statements
  cases node with
  | block statements => exact executeAll_agrees hm onInner he
  | exprStmt expr => exact (onPart expr List.mem_cons_self).bind hm he fun _ _ _ _ => .pure _
  | ifStmt condition thenBranch elseBranch =>
      refine (onPart condition List.mem_cons_self).bind hm he fun c env hc he => ?_
      refine hC.debugText_bind hI (by decide) hc ?_
      split
      · exact (onInner thenBranch List.mem_cons_self).agrees env he
      · split
        · exact .pure _
        · next there =>
            have there : elseBranch.isAbsent = false := by simpa using there
            have member := Node.mem_present (List.mem_singleton_self elseBranch) there
            exact (onInner elseBranch (List.mem_cons_of_mem _ member)).agrees env he
  | whileStmt condition body =>
      obtain ⟨cut, le⟩ := parts.rounds rfl
      exact whileLoop_agrees hm cut (onPart condition List.mem_cons_self)
        (onInner body List.mem_cons_self) le he
  | forStmt init condition post body =>
      obtain ⟨cut, le⟩ := parts.rounds rfl
      have given : ∀ p ∈ [init, condition, post], p.isAbsent = false →
          C.OnExpression I m m' d i p :=
        fun p hp there => onPart p (Node.mem_present hp there)
      have kept := Invariant.Kept.evaluateOptional_keeps hm
        (fun there => (given init (by simp) there).known) he
      refine (evaluateOptional_agrees hm (given init (by simp)) he).bind kept fun env he => ?_
      exact forLoop_agrees hm cut (given condition (by simp)) (given post (by simp))
        (onInner body List.mem_cons_self) le he
  | loopStmt var array body =>
      exact executeLoop_agrees hI hm hn (onInner body List.mem_cons_self) he
  | returnStmt value =>
      unfold Machine.executeNode
      dsimp only
      split
      · exact .pure _
      · next there =>
          have there : value.isAbsent = false := by simpa using there
          have member := Node.mem_present (List.mem_singleton_self value) there
          exact (onPart value member).bind hm he fun _ _ _ _ => .pure _
  | _ => exact .fail _

/-! ## Machines -/

section

variable {fuel fuel' level : Nat} {i : ι} {node : Node}

/-- One more level: what the machines agree on inside an expression, they agree on for it. -/
theorem evaluate_agrees (hI : I.Kept ctx) (hC : C.Kept I ctx ctx')
    (bodies : C.OnBodies I ctx (ctx.machine fuel (level + 1)) (ctx'.machine fuel' (level + 1)) d)
    (parts : ∀ p ∈ node.expressions, C.OnExpression I (ctx.machine fuel (level + 1))
      (ctx'.machine fuel' (level + 1)) d i p) (hn : I.expr i node) :
    C.OnExpression I (ctx.machine (fuel + 1) level) (ctx'.machine (fuel' + 1) level) d i node := by
  refine ⟨hn, fun env he => ?_⟩
  have hm := hI.machine_respects fuel (level + 1)
  simp only [Context.machine, Context.evaluate]
  refine (hC.enter_agrees level).bind (hI.enter_keeps level) fun _ _ => ?_
  refine (hC.even.note_agrees (.reached env)).bind (hI.note_keeps ⟨i, he⟩) fun _ _ => ?_
  refine (evaluateNode_agrees hI hC hm bodies parts hn he).bind
    (hI.evaluateNode_keeps hm hn he) ?_
  rintro ⟨v, env⟩ ⟨hv, he⟩
  exact (hC.even.note_agrees (.yielded v env)).bind (hI.note_keeps ⟨hv, i, he⟩) fun _ _ => .pure _

/-- One more level: what the machines agree on inside a statement, they agree on for it. -/
theorem execute_agrees (hI : I.Kept ctx) (hC : C.Kept I ctx ctx')
    (parts : C.Parts I (ctx.machine fuel (level + 1)) (ctx'.machine fuel' (level + 1)) d i node)
    (hn : I.stmt i node) :
    C.OnStatement I (ctx.machine (fuel + 1) level) (ctx'.machine (fuel' + 1) level) d i node := by
  refine ⟨hn, fun env he => ?_⟩
  have hm := hI.machine_respects fuel (level + 1)
  simp only [Context.machine, Context.execute]
  refine (hC.enter_agrees level).bind (hI.enter_keeps level) fun _ _ => ?_
  refine (hC.even.note_agrees (.reached env)).bind (hI.note_keeps ⟨i, he⟩) fun _ _ => ?_
  refine (executeNode_agrees hI hC hm parts hn he).bind (hI.executeNode_keeps hm hn he) ?_
  intro outcome ho
  exact (hC.even.note_agrees outcome.event).bind
    (hI.note_keeps (Invariant.Kept.outcome_admitted ho)) fun _ _ => .pure _

end

/-- Machines agree on every node if the first has no more fuel than the second and may be cut
    short. -/
theorem machine_agrees (hI : I.Kept ctx) (hC : C.Kept I ctx ctx') (cut : C.cut) (fuel : Nat) :
    ∀ {fuel' : Nat}, fuel ≤ fuel' → ∀ (level : Nat) (d : Int) (i : ι) (node : Node),
      (I.expr i node →
        C.OnExpression I (ctx.machine fuel level) (ctx'.machine fuel' level) d i node) ∧
      (I.stmt i node →
        C.OnStatement I (ctx.machine fuel level) (ctx'.machine fuel' level) d i node) := by
  induction fuel with
  | zero =>
      intro fuel' _ level d i node
      refine ⟨fun hn => ⟨hn, fun env _ => ?_⟩, fun hn => ⟨hn, fun env _ => ?_⟩⟩
      · simp only [Context.machine, Context.evaluate]
        exact fun _ _ _ _ => .cut cut
      · simp only [Context.machine, Context.execute]
        exact fun _ _ _ _ => .cut cut
  | succ fuel ih =>
      intro fuel' le level d i node
      obtain ⟨fuel', rfl⟩ : ∃ k, fuel' = k + 1 := ⟨fuel' - 1, by omega⟩
      have le : fuel ≤ fuel' := by omega
      have onPart (hn : I.expr i node ∨ I.stmt i node) (p : Node) (hp : p ∈ node.expressions) :=
        (ih le (level + 1) d i p).1 (hI.expressions i node hn p hp)
      refine ⟨fun hn => evaluate_agrees hI hC ?_ (onPart (.inl hn)) hn, fun hn =>
        execute_agrees hI hC ⟨onPart (.inr hn), ?_, fun _ => ⟨cut, le⟩⟩ hn⟩
      · intro _ _ _ _ _ _ _ j st _ hst
        exact (ih le (level + 1) (d + 1) j st).2 hst
      · intro p hp
        exact (ih le (level + 1) d i p).2 (hI.statements i node hn p hp)

/-- So they agree on the bodies of functions. -/
theorem machine_onBodies (hI : I.Kept ctx) (hC : C.Kept I ctx ctx') (cut : C.cut)
    {fuel fuel' : Nat} (le : fuel ≤ fuel') (level : Nat) (d : Int) :
    C.OnBodies I ctx (ctx.machine fuel level) (ctx'.machine fuel' level) d :=
  fun _ _ _ _ _ _ _ i st _ hst => (machine_agrees hI hC cut fuel le level (d + 1) i st).2 hst

end Coupling.Kept

end Cadence
