/-
  The induction over runs.

  `Machine.Respects I`: the machine keeps the invariant `I` over whole expressions and statements.
  If `I` is kept by what a single rule does (`Invariant.Kept`), then the rules for expressions
  (`evaluateNode_keeps`) and for statements (`executeNode_keeps`), over a machine that respects `I`,
  keep it too. By induction on the fuel every machine of the context respects it
  (`machine_respects`).
-/
import Cadence.Proofs.Invariant

namespace Cadence

variable {ι α : Type} {I : Invariant ι} {ctx : Context} {m : Machine}

/-- What a statement may leave behind in an activation. -/
def Invariant.outcome (I : Invariant ι) (i : ι) : Outcome → Prop
  | .next env => I.env i env
  | .returned v globals => I.value v ∧ I.globals globals

/-- The machine keeps the invariant over whole nodes. -/
structure Machine.Respects (m : Machine) (I : Invariant ι) : Prop where
  evaluate : ∀ i node env, I.expr i node → I.env i env →
    I.Keeps (m.evaluate node env) fun r => I.value r.1 ∧ I.env i r.2
  execute : ∀ i node env, I.stmt i node → I.env i env → I.Keeps (m.execute node env) (I.outcome i)

namespace Invariant.Kept

/-! ## Single computations -/

theorem fault_keeps (hI : I.Kept ctx) (f : Fault) (Q : α → Prop) : I.Keeps (Act.fault f) Q :=
  Keeps.fail (hI.fault f)

theorem require_keeps (hI : I.Kept ctx) (c : Prop) [Decidable c] (f : Fault) :
    I.Keeps (Act.require c f) fun _ => c := by
  unfold Act.require
  split
  · next h => exact Keeps.pure h
  · exact hI.fault_keeps f _

theorem unfinished_keeps (hI : I.Kept ctx) (Q : α → Prop) : I.Keeps Act.unfinished Q := hI.cut

theorem note_keeps (hI : I.Kept ctx) {e : Event} (h : I.Admits e) :
    I.Keeps (Act.note e) fun _ => True :=
  Keeps.modify fun s hs => hI.noted e s h hs

theorem enter_keeps (hI : I.Kept ctx) (level : Nat) :
    I.Keeps (ctx.enter level) fun _ => True := by
  intro s hs
  unfold Context.enter
  cases ctx.nesting with
  | none => exact ⟨trivial, hs⟩
  | some limit =>
      by_cases h : limit ≤ level
      · simp only [if_pos h]
        exact hI.fault _ s hs
      · simp only [if_neg h]
        exact ⟨trivial, hs⟩

theorem debug_keeps (hI : I.Kept ctx) {level : Int} (pos : 0 < level) {message : Act String}
    (h : I.Keeps message fun _ => True) : I.Keeps (ctx.debug level message) fun _ => True := by
  unfold Context.debug
  split
  · next le =>
      exact h.bind fun text _ => Keeps.modify (hI.debugged (Int.lt_of_lt_of_le pos le) text)
  · exact Keeps.pure trivial

theorem text_keeps (hI : I.Kept ctx) {v : Value} (h : I.value v) :
    I.Keeps (ctx.text v) fun _ => True :=
  Keeps.lift (hI.text v h)

theorem texts_keeps (hI : I.Kept ctx) {vs : List Value} (h : ∀ v ∈ vs, I.value v) :
    I.Keeps (ctx.texts vs) fun _ => True :=
  Keeps.lift (hI.texts vs h)

/-- The depth of calls is no concern of the invariant, however the call ends. -/
theorem inCall_keeps (hI : I.Kept ctx) {x : Act α} {Q : α → Prop} (h : I.Keeps x Q) :
    I.Keeps (Act.inCall x) Q := by
  intro s hs
  have h := h _ (hI.depth (s.depth + 1) s hs)
  unfold Act.inCall
  rcases e : x { s with depth := s.depth + 1 } with ⟨a | e | _, t⟩ <;> rw [e] at h
  · exact ⟨h.1, hI.depth _ t h.2⟩
  · exact hI.depth_failed _ _ t h
  · exact hI.depth_cut _ t h

/-! ## Sequences -/

theorem evaluateAll_keeps (hm : m.Respects I) {i : ι} :
    ∀ {nodes : List Node} {env : Environment}, (∀ n ∈ nodes, I.expr i n) → I.env i env →
      I.Keeps (m.evaluateAll nodes env) fun r =>
        (r.1.length = nodes.length ∧ ∀ v ∈ r.1, I.value v) ∧ I.env i r.2
  | [], env, _, he => Keeps.pure ⟨⟨rfl, by simp⟩, he⟩
  | node :: rest, env, hn, he => by
      unfold Machine.evaluateAll
      refine (hm.evaluate i node env (hn node List.mem_cons_self) he).bind ?_
      rintro ⟨v, env⟩ ⟨hv, he⟩
      refine (evaluateAll_keeps hm (fun n h => hn n (List.mem_cons_of_mem _ h)) he).bind ?_
      rintro ⟨vs, env⟩ ⟨⟨len, hvs⟩, he⟩
      refine Keeps.pure ⟨⟨by simp [len], ?_⟩, he⟩
      intro w hw
      rcases List.mem_cons.1 hw with rfl | hw
      · exact hv
      · exact hvs w hw

theorem executeAll_keeps (hm : m.Respects I) {i : ι} :
    ∀ {nodes : List Node} {env : Environment}, (∀ n ∈ nodes, I.stmt i n) → I.env i env →
      I.Keeps (m.executeAll nodes env) (I.outcome i)
  | [], env, _, he => Keeps.pure he
  | node :: rest, env, hn, he => by
      unfold Machine.executeAll
      refine (hm.execute i node env (hn node List.mem_cons_self) he).bind ?_
      intro outcome ho
      cases outcome with
      | next env => exact executeAll_keeps hm (fun n h => hn n (List.mem_cons_of_mem _ h)) ho
      | returned v globals => exact Keeps.pure ho

/-! ## Arrays and assignment -/

theorem itemsOf_keeps (hI : I.Kept ctx) {i : ι} {env : Environment} (name : Name)
    (use : Fault.ArrayUse) (he : I.env i env) :
    I.Keeps (Machine.itemsOf env name use) fun items =>
      Reference.resolve env name = .ok (.array items) := by
  unfold Machine.itemsOf
  refine (Keeps.lift_eq (hI.resolve i env name he)).bind ?_
  rintro v ⟨eq, -⟩
  cases v with
  | array items => exact Keeps.pure eq
  | _ => exact hI.fault_keeps _ _

theorem subscript_keeps (hI : I.Kept ctx) (hm : m.Respects I) {i : ι} (array : Json)
    {indices : List Node} {env : Environment} (hn : ∀ n ∈ indices, I.expr i n) (he : I.env i env) :
    I.Keeps (m.subscript array indices env) fun r => I.env i r.2 := by
  match indices, hn with
  | [], _ => exact hI.fault_keeps _ _
  | [node], hn =>
      unfold Machine.subscript
      refine (hm.evaluate i node env (hn node List.mem_cons_self) he).bind ?_
      rintro ⟨v, env⟩ ⟨hv, he⟩
      cases v with
      | int n => exact Keeps.pure he
      | _ => exact (Keeps.lift (hI.tag _ hv)).bind fun tag _ => hI.fault_keeps _ _
  | _ :: _ :: _, _ => exact hI.fault_keeps _ _

theorem evaluateIndex_keeps (hI : I.Kept ctx) (hm : m.Respects I) {i : ι} {array : Json}
    {indices : List Node} {env : Environment} (hn : I.expr i (.index array indices))
    (he : I.env i env) :
    I.Keeps (m.evaluateIndex array indices env) fun r => I.value r.1 ∧ I.env i r.2 := by
  unfold Machine.evaluateIndex
  refine (Keeps.lift (hI.lookups i _ (.inl hn) array List.mem_cons_self)).bind ?_
  intro name _
  refine (hI.itemsOf_keeps name .read he).bind ?_
  intro _ _
  refine (hI.subscript_keeps hm array (hI.expressions i _ (.inl hn)) he).bind ?_
  rintro ⟨index, env⟩ he
  refine (Keeps.lift (hI.resolve i env name he)).bind ?_
  intro held hheld
  refine (Keeps.lift (hI.element held name index hheld)).bind ?_
  exact fun v hv => Keeps.pure ⟨hv, he⟩

theorem assignName_keeps (hI : I.Kept ctx) {i : ι} {target : Json} {e : Node} {value : Value}
    {env : Environment} (hn : I.expr i (.assign (.ident target) e)) (hv : I.value value)
    (he : I.env i env) :
    I.Keeps (Machine.assignName ctx target value env) fun r => I.value r.1 ∧ I.env i r.2 := by
  unfold Machine.assignName
  refine (Keeps.lift_eq (hI.lookups i _ (.inl hn) target List.mem_cons_self)).bind ?_
  rintro name ⟨hname, -⟩
  refine (Keeps.lift_eq (hI.resolve i env name he)).bind ?_
  rintro held ⟨hheld, hh⟩
  refine (Keeps.lift_eq (hI.checkAssignable name held value hh hv)).bind ?_
  rintro ⟨⟩ ⟨hcheck, -⟩
  refine (Keeps.lift (hI.assignName i target e env name held value hn hname he hheld hcheck hv)).bind
    ?_
  intro env he
  refine (hI.debug_keeps (by decide) ?_).bind fun _ _ => Keeps.pure ⟨hv, he⟩
  refine (Keeps.lift (Q := fun _ => True) ?_).bind fun scope _ => ?_
  · -- a name that is not declared is a fault
    unfold Environment.scopeOf
    cases env.scope? name with
    | some s => exact .ok trivial
    | none => exact .error (hI.fault _)
  · exact (hI.text_keeps hv).bind fun _ _ => Keeps.pure trivial

theorem assignIndex_keeps (hI : I.Kept ctx) (hm : m.Respects I) {i : ι} {array : Json}
    {indices : List Node} {e : Node} {value : Value} {env : Environment}
    (hn : I.expr i (.assign (.index array indices) e)) (hv : I.value value) (he : I.env i env) :
    I.Keeps (Machine.assignIndex ctx m array indices value env) fun r =>
      I.value r.1 ∧ I.env i r.2 := by
  unfold Machine.assignIndex
  refine (Keeps.lift_eq (hI.lookups i _ (.inl hn) array List.mem_cons_self)).bind ?_
  rintro name ⟨hname, -⟩
  refine (hI.itemsOf_keeps name .assign he).bind ?_
  intro _ _
  have hindices : ∀ n ∈ indices, I.expr i n := fun n h =>
    hI.expressions i _ (.inl hn) n (List.mem_cons_of_mem _ h)
  refine (hI.subscript_keeps hm array hindices he).bind ?_
  rintro ⟨index, env⟩ he
  refine (hI.itemsOf_keeps name .assign he).bind ?_
  intro items hitems
  have held : I.value (.array items) := (hI.resolve i env name he).of_ok hitems
  refine (Keeps.lift_eq (hI.replaceElement items name index value held hv)).bind ?_
  rintro updated ⟨hupdated, hu⟩
  refine (Keeps.lift (hI.assignIndex i array indices e env name items index value updated hn hname
    he hitems hupdated hu)).bind ?_
  intro env he
  refine (hI.debug_keeps (by decide) ?_).bind fun _ _ => Keeps.pure ⟨hv, he⟩
  exact (hI.text_keeps hv).bind fun _ _ => Keeps.pure trivial

theorem assign_keeps (hI : I.Kept ctx) (hm : m.Respects I) {i : ι} {target e : Node}
    {value : Value} {env : Environment} (hn : I.expr i (.assign target e)) (hv : I.value value)
    (he : I.env i env) :
    I.Keeps (Machine.assign ctx m target value env) fun r => I.value r.1 ∧ I.env i r.2 := by
  cases target with
  | ident name => exact hI.assignName_keeps hn hv he
  | index array indices => exact hI.assignIndex_keeps hm hn hv he
  | _ => exact hI.fault_keeps _ _

/-! ## Calls -/

theorem finishCall_keeps (hI : I.Kept ctx) {i : ι} (name : Json) {outcome : Outcome}
    (ho : I.outcome i outcome) :
    I.Keeps (Machine.finishCall ctx name outcome) fun r => I.value r.1 ∧ I.globals r.2 := by
  cases outcome with
  | next env => exact Keeps.pure ⟨hI.falsity, hI.globals i env ho⟩
  | returned v globals =>
      refine (hI.debug_keeps (by decide) ?_).bind fun _ _ => Keeps.pure ho
      exact (hI.text_keeps ho.1).bind fun _ _ => Keeps.pure trivial

theorem callFunction_keeps (hI : I.Kept ctx) (hm : m.Respects I) {name : Name} {function : Node}
    {args : List Value} {globals : Frame} (found : ctx.functions.get? name = some function)
    (hargs : ∀ v ∈ args, I.value v) (hg : I.globals globals) :
    I.Keeps (Machine.callFunction ctx m function args globals) fun r =>
      I.value r.1 ∧ I.globals r.2 := by
  cases function with
  | funcDecl f params decls body =>
      unfold Machine.callFunction
      refine (hI.note_keeps (e := .called f args) hargs).bind fun _ _ => ?_
      refine (hI.require_keeps _ _).bind fun _ len => ?_
      -- the two steps that make the frame are judged together
      have frame := hI.activate name f params decls body args globals found len hargs hg
      refine (Keeps.lift frame.unbind).bind fun b hb => ?_
      refine (Keeps.lift hb).bind ?_
      rintro locals ⟨i, he, hbody⟩
      refine (hI.debug_keeps (by decide) ?_).bind fun _ _ => ?_
      · exact (hI.texts_keeps hargs).bind fun _ _ => Keeps.pure trivial
      refine (Keeps.read (Q := fun _ => True) fun _ _ => trivial).bind fun depth _ => ?_
      refine (hI.require_keeps _ _).bind fun _ _ => ?_
      refine (hI.inCall_keeps (executeAll_keeps hm hbody he)).bind fun outcome ho => ?_
      exact hI.finishCall_keeps f ho
  | _ => exact Keeps.fail (hI.notFunction name _ found (by simp))

theorem checkArity_keeps (hI : I.Kept ctx) (b : Builtin) (args : List Value) :
    I.Keeps (Machine.checkArity b args) fun _ => ∀ n, b.arity = some n → args.length = n := by
  unfold Machine.checkArity
  cases b.arity with
  | none => exact Keeps.pure (by simp)
  | some n => exact (hI.require_keeps _ _).mono fun _ len k hk => by cases hk; exact len

theorem callBuiltin_keeps (hI : I.Kept ctx) (b : Builtin) {args : List Value}
    (hargs : ∀ v ∈ args, I.value v) : I.Keeps (Machine.callBuiltin ctx b args) I.value := by
  unfold Machine.callBuiltin
  refine (hI.checkArity_keeps b args).bind fun _ len => ?_
  refine (hI.debug_keeps (by decide) ?_).bind fun _ _ => hI.perform b args hargs len
  exact (hI.texts_keeps hargs).bind fun _ _ => Keeps.pure trivial

theorem evaluateCall_keeps (hI : I.Kept ctx) (hm : m.Respects I) {i : ι} {function : Json}
    {args : List Node} {env : Environment} (hn : I.expr i (.call function args))
    (he : I.env i env) :
    I.Keeps (Machine.evaluateCall ctx m function args env) fun r =>
      I.value r.1 ∧ I.env i r.2 := by
  unfold Machine.evaluateCall
  refine (Keeps.lift (hI.lookups i _ (.inl hn) function List.mem_cons_self)).bind fun name _ => ?_
  cases Builtin.named? name with
  | some b =>
      refine (evaluateAll_keeps hm (hI.expressions i _ (.inl hn)) he).bind ?_
      rintro ⟨vs, env⟩ ⟨⟨-, hvs⟩, he⟩
      exact (hI.callBuiltin_keeps b hvs).bind fun v hv => Keeps.pure ⟨hv, he⟩
  | none =>
      dsimp only
      cases found : ctx.functions.get? name with
      | none => exact hI.fault_keeps _ _
      | some decl =>
          refine (evaluateAll_keeps hm (hI.expressions i _ (.inl hn)) he).bind ?_
          rintro ⟨vs, env⟩ ⟨⟨-, hvs⟩, he⟩
          refine (hI.callFunction_keeps hm found hvs (hI.globals i env he)).bind ?_
          rintro ⟨v, globals⟩ ⟨hv, hg⟩
          exact Keeps.pure ⟨hv, hI.withGlobals i env globals he hg⟩

/-! ## Expressions -/

theorem evaluateNode_keeps (hI : I.Kept ctx) (hm : m.Respects I) {i : ι} {node : Node}
    {env : Environment} (hn : I.expr i node) (he : I.env i env) :
    I.Keeps (Machine.evaluateNode ctx m node env) fun r => I.value r.1 ∧ I.env i r.2 := by
  have part : ∀ p ∈ node.expressions, I.expr i p := hI.expressions i node (.inl hn)
  cases node with
  | literal content kind =>
      exact (Keeps.lift (hI.literal i content kind hn)).bind fun v hv => Keeps.pure ⟨hv, he⟩
  | ident name =>
      refine (Keeps.lift (hI.lookups i _ (.inl hn) name List.mem_cons_self)).bind fun name _ => ?_
      exact (Keeps.lift (hI.resolve i env name he)).bind fun v hv => Keeps.pure ⟨hv, he⟩
  | arrayLit elements =>
      refine (evaluateAll_keeps hm part he).bind ?_
      rintro ⟨vs, env⟩ ⟨⟨len, hvs⟩, he⟩
      exact (Keeps.lift (hI.arrayLit i elements vs hn len hvs)).bind fun v hv =>
        Keeps.pure ⟨hv, he⟩
  | index array indices => exact hI.evaluateIndex_keeps hm hn he
  | assign target value =>
      have hvalue : I.expr i value := part value (by cases target <;> simp [Node.expressions])
      refine (hm.evaluate i value env hvalue he).bind ?_
      rintro ⟨v, env⟩ ⟨hv, he⟩
      exact hI.assign_keeps hm hn hv he
  | binaryOp op left right =>
      refine (hm.evaluate i left env (part left (by simp [Node.expressions])) he).bind ?_
      rintro ⟨a, env⟩ ⟨ha, he⟩
      refine (hm.evaluate i right env (part right (by simp [Node.expressions])) he).bind ?_
      rintro ⟨b, env⟩ ⟨hb, he⟩
      exact (Keeps.lift (hI.binary i op left right a b hn ha hb)).bind fun v hv =>
        Keeps.pure ⟨hv, he⟩
  | unaryOp op operand =>
      refine (hm.evaluate i operand env (part operand (by simp [Node.expressions])) he).bind ?_
      rintro ⟨a, env⟩ ⟨ha, he⟩
      exact (Keeps.lift (hI.unary i op operand a hn ha)).bind fun v hv => Keeps.pure ⟨hv, he⟩
  | call name args => exact hI.evaluateCall_keeps hm hn he
  | _ => exact Keeps.fail (hI.notExpression i _ hn rfl)

/-! ## Statements -/

theorem whileLoop_keeps (hI : I.Kept ctx) (hm : m.Respects I) {i : ι} {condition body : Node}
    (hc : I.expr i condition) (hb : I.stmt i body) :
    ∀ (rounds : Nat) {env : Environment}, I.env i env →
      I.Keeps (m.whileLoop condition body rounds env) (I.outcome i)
  | 0, _, _ => hI.unfinished_keeps _
  | rounds + 1, env, he => by
      unfold Machine.whileLoop
      refine (hm.evaluate i condition env hc he).bind ?_
      rintro ⟨c, env⟩ ⟨-, he⟩
      dsimp only
      split
      · refine (hm.execute i body env hb he).bind fun outcome ho => ?_
        cases outcome with
        | next env => exact whileLoop_keeps hI hm hc hb rounds ho
        | returned v globals => exact Keeps.pure ho
      · exact Keeps.pure he

theorem evaluateOptional_keeps (hm : m.Respects I) {i : ι} {node : Node} {env : Environment}
    (hn : node.isAbsent = false → I.expr i node) (he : I.env i env) :
    I.Keeps (m.evaluateOptional node env) (I.env i) := by
  unfold Machine.evaluateOptional
  split
  · exact Keeps.pure he
  · next there =>
      refine (hm.evaluate i node env (hn (by simpa using there)) he).bind ?_
      exact fun r hr => Keeps.pure hr.2

theorem conditionHolds_keeps (hm : m.Respects I) {i : ι} {condition : Node} {env : Environment}
    (hc : condition.isAbsent = false → I.expr i condition) (he : I.env i env) :
    I.Keeps (m.conditionHolds condition env) fun r => I.env i r.2 := by
  unfold Machine.conditionHolds
  split
  · exact Keeps.pure he
  · next there =>
      refine (hm.evaluate i condition env (hc (by simpa using there)) he).bind ?_
      exact fun r hr => Keeps.pure hr.2

theorem forLoop_keeps (hI : I.Kept ctx) (hm : m.Respects I) {i : ι} {condition post body : Node}
    (hc : condition.isAbsent = false → I.expr i condition)
    (hp : post.isAbsent = false → I.expr i post) (hb : I.stmt i body) :
    ∀ (rounds : Nat) {env : Environment}, I.env i env →
      I.Keeps (m.forLoop condition post body rounds env) (I.outcome i)
  | 0, _, _ => hI.unfinished_keeps _
  | rounds + 1, env, he => by
      unfold Machine.forLoop
      refine (conditionHolds_keeps hm hc he).bind ?_
      rintro ⟨holds, env⟩ he
      dsimp only
      split
      · refine (hm.execute i body env hb he).bind fun outcome ho => ?_
        cases outcome with
        | next env =>
            refine (evaluateOptional_keeps hm hp ho).bind fun env he => ?_
            exact forLoop_keeps hI hm hc hp hb rounds he
        | returned v globals => exact Keeps.pure ho
      · exact Keeps.pure he

theorem elementLoop_keeps (hI : I.Kept ctx) (hm : m.Respects I) {i : ι} {j k : Json} {body : Node}
    {var array : Name} (hn : I.stmt i (.loopStmt j k body)) (hvar : Operator.nameOf j = .ok var)
    (harray : Operator.nameOf k = .ok array) (has : I.HasArray i array) :
    ∀ (count : Nat) {index : Int} {env : Environment}, 0 ≤ index → I.env i env →
      I.Keeps (m.elementLoop var array body count index env) (I.outcome i)
  | 0, _, _, _, he => Keeps.pure he
  | count + 1, index, env, pos, he => by
      unfold Machine.elementLoop
      refine (Keeps.lift (hI.bindElement i j k body env var array index hn hvar harray has he
        pos)).bind fun env he => ?_
      have hb : I.stmt i body := hI.statements i _ hn body List.mem_cons_self
      refine (hm.execute i body env hb he).bind fun outcome ho => ?_
      cases outcome with
      | next env => exact elementLoop_keeps hI hm hn hvar harray has count (by omega) ho
      | returned v globals => exact Keeps.pure ho

theorem executeLoop_keeps (hI : I.Kept ctx) (hm : m.Respects I) {i : ι} {var array : Json}
    {body : Node} {env : Environment} (hn : I.stmt i (.loopStmt var array body))
    (he : I.env i env) : I.Keeps (m.executeLoop var array body env) (I.outcome i) := by
  have looked := hI.lookups i _ (.inr hn)
  unfold Machine.executeLoop
  refine (hI.require_keeps _ _).bind fun _ _ => ?_
  refine (Keeps.lift_eq (looked array (by simp [Node.lookups]))).bind ?_
  rintro arrayName ⟨harray, -⟩
  refine (hI.itemsOf_keeps arrayName .loop he).bind fun items found => ?_
  split
  · exact Keeps.pure he
  · refine (Keeps.lift_eq (looked var List.mem_cons_self)).bind ?_
    rintro varName ⟨hvar, -⟩
    have has : I.HasArray i arrayName := ⟨env, items, he, found⟩
    exact hI.elementLoop_keeps hm hn hvar harray has items.size (by omega) he

theorem executeNode_keeps (hI : I.Kept ctx) (hm : m.Respects I) {i : ι} {node : Node}
    {env : Environment} (hn : I.stmt i node) (he : I.env i env) :
    I.Keeps (Machine.executeNode ctx m node env) (I.outcome i) := by
  have part : ∀ p ∈ node.expressions, I.expr i p := hI.expressions i node (.inr hn)
  have inner : ∀ p ∈ node.statements, I.stmt i p := hI.statements i node hn
  cases node with
  | block statements => exact executeAll_keeps hm inner he
  | exprStmt expr =>
      refine (hm.evaluate i expr env (part expr List.mem_cons_self) he).bind ?_
      exact fun r hr => Keeps.pure hr.2
  | ifStmt condition thenBranch elseBranch =>
      refine (hm.evaluate i condition env (part condition List.mem_cons_self) he).bind ?_
      rintro ⟨c, env⟩ ⟨hc, he⟩
      refine (hI.debug_keeps (by decide) ?_).bind fun _ _ => ?_
      · exact (hI.text_keeps hc).bind fun _ _ => Keeps.pure trivial
      split
      · exact hm.execute i thenBranch env (inner thenBranch List.mem_cons_self) he
      · split
        · exact Keeps.pure he
        · next there =>
            have there : elseBranch.isAbsent = false := by simpa using there
            exact hm.execute i elseBranch env
              (inner elseBranch (List.mem_cons_of_mem _ (Node.mem_present (by simp) there))) he
  | whileStmt condition body =>
      exact hI.whileLoop_keeps hm (part condition List.mem_cons_self)
        (inner body List.mem_cons_self) m.rounds he
  | forStmt init condition post body =>
      have given : ∀ p ∈ [init, condition, post], p.isAbsent = false → I.expr i p :=
        fun p hp there => part p (Node.mem_present hp there)
      refine (evaluateOptional_keeps hm (given init (by simp)) he).bind fun env he => ?_
      exact hI.forLoop_keeps hm (given condition (by simp)) (given post (by simp))
        (inner body List.mem_cons_self) m.rounds he
  | loopStmt var array body => exact hI.executeLoop_keeps hm hn he
  | returnStmt value =>
      unfold Machine.executeNode
      dsimp only
      split
      · exact Keeps.pure ⟨hI.falsity, hI.globals i env he⟩
      · next there =>
          have there : value.isAbsent = false := by simpa using there
          refine (hm.evaluate i value env (part value (Node.mem_present (by simp) there)) he).bind ?_
          rintro ⟨v, env⟩ ⟨hv, he⟩
          exact Keeps.pure ⟨hv, hI.globals i env he⟩
  | _ => exact Keeps.fail (hI.notStatement i _ hn rfl)

/-! ## Machines -/

theorem outcome_admitted {i : ι} {outcome : Outcome} (ho : I.outcome i outcome) :
    I.Admits outcome.event := by
  cases outcome with
  | next env => exact ⟨i, ho⟩
  | returned v globals => exact ho

/-- Every machine of the context keeps the invariant, whatever its fuel and its level. -/
theorem machine_respects (hI : I.Kept ctx) (fuel : Nat) :
    ∀ level : Nat, (ctx.machine fuel level).Respects I := by
  induction fuel with
  | zero =>
      intro level
      refine ⟨fun i node env _ _ => ?_, fun i node env _ _ => ?_⟩
      · simp only [Context.machine, Context.evaluate]
        exact hI.unfinished_keeps _
      · simp only [Context.machine, Context.execute]
        exact hI.unfinished_keeps _
  | succ fuel ih =>
      intro level
      refine ⟨fun i node env hn he => ?_, fun i node env hn he => ?_⟩
      · simp only [Context.machine, Context.evaluate]
        refine (hI.enter_keeps level).bind fun _ _ => ?_
        refine (hI.note_keeps (e := .reached env) ⟨i, he⟩).bind fun _ _ => ?_
        refine (hI.evaluateNode_keeps (ih (level + 1)) hn he).bind ?_
        rintro ⟨v, env⟩ ⟨hv, he⟩
        exact (hI.note_keeps (e := .yielded v env) ⟨hv, i, he⟩).bind fun _ _ =>
          Keeps.pure ⟨hv, he⟩
      · simp only [Context.machine, Context.execute]
        refine (hI.enter_keeps level).bind fun _ _ => ?_
        refine (hI.note_keeps (e := .reached env) ⟨i, he⟩).bind fun _ _ => ?_
        refine (hI.executeNode_keeps (ih (level + 1)) hn he).bind fun outcome ho => ?_
        exact (hI.note_keeps (outcome_admitted ho)).bind fun _ _ => Keeps.pure ho

end Invariant.Kept

end Cadence
