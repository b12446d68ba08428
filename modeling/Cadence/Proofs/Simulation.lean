/-
  One run simulated by another.

  A `Simulation` compares two runs that need not be of the same tree: it says which statements of
  the second stand for those of the first. Environments on the two sides have the same frames, and
  the studios are the same but for the functions and for what has been noted. One of the two sides
  may run out of fuel before the other. On some failures the first side may give up while the second
  goes on; then the console of the second has at least the lines that the first has come to.

  `Follows` is the judgement for two computations. It has a rule for each way of putting them
  together, and it includes that the second never takes a line back (`Act.Grows`), which is what the
  lines of a side that goes on alone depend on.
-/
import Cadence.Proofs.Coupling
import Mathlib.Data.List.Forall2

namespace Cadence

variable {α β : Type}

/-! ## Computations that only add lines -/

/-- Whatever the console shows before the computation it shows after it. -/
def Act.Grows (x : Act α) : Prop := ∀ s, s.console.toList <+: (x s).2.console.toList

namespace Act.Grows

theorem of_eq {x : Act α} (same : ∀ s, (x s).2.console = s.console) : x.Grows := by
  intro s
  exact ⟨[], by rw [same s, List.append_nil]⟩

theorem pure (a : α) : Grows (pure a) := of_eq fun _ => rfl

theorem lift (r : Except Failure α) : Grows (Act.lift r) := by
  refine of_eq fun s => ?_
  cases r <;> rfl

theorem bind {x : Act α} {f : α → Act β} (hx : x.Grows) (hf : ∀ a, (f a).Grows) :
    (x >>= f).Grows := by
  intro s
  have first := hx s
  show _ <+: (Act.bind x f s).2.console.toList
  unfold Act.bind
  rcases e : x s with ⟨a | e | _, t⟩ <;> rw [e] at first
  · exact first.trans (hf a t)
  · exact first
  · exact first

theorem print (line : Line) : Grows (Act.print line) := by
  intro s
  show _ <+: (s.console.push line).toList
  rw [Array.toList_push]
  exact List.prefix_append _ _

theorem mixdown (room : Value.Room) (args : List Value) : Grows (Act.mixdown room args) := by
  intro s
  unfold Act.mixdown
  rcases s.track.mixdown room args with ⟨e | n, track⟩
  · exact List.prefix_rfl
  · show _ <+: (s.console.push (.mixedDown n)).toList
    rw [Array.toList_push]
    exact List.prefix_append _ _

theorem setTempo (tempo : Int) : Grows (Act.setTempo tempo) := by
  refine of_eq fun s => ?_
  unfold Act.setTempo
  cases s.track.setTempo tempo <;> rfl

theorem call (room : Value.Room) (b : Builtin) (args : List Value) : (b.call room args).Grows := by
  cases b with
  | print =>
      refine (lift _).bind fun v => (lift _).bind fun text => ?_
      exact (print _).bind fun _ => pure _
  | getAmplitude | getDuration | length => exact (lift _).bind fun _ => pure _
  | getPitches | setAmplitude | setDuration | setPitches => exact lift _
  | randomInt | randomDouble =>
      exact (lift _).bind fun _ => bind (of_eq fun _ => rfl) fun _ => pure _
  | bpm => exact (lift _).bind fun n => (setTempo n).bind fun _ => pure _
  | mixdown => exact (mixdown room args).bind fun _ => pure _

theorem perform (room : Value.Room) (b : Builtin) (args : List Value) :
    (b.perform room args).Grows :=
  bind (of_eq fun _ => rfl) fun _ => call room b args

end Act.Grows

theorem Studio.console_debug (s : Studio) (text : String) :
    s.console.toList <+: (s.debug text).console.toList := by
  unfold Studio.debug
  split
  · exact List.prefix_rfl
  · rw [Array.toList_push]
    exact List.prefix_append _ _

/-- The same has been done in both studios: they differ at most in the table of functions and in
    what has been noted. -/
def Studio.Like (s t : Studio) : Prop := ∃ functions history, t = { s with functions, history }

/-! ## Environments and outcomes with the same frames -/

/-- The two environments have the same frames. The calls that they belong to may differ. -/
def Environment.Like (a b : Environment) : Prop := ∃ activation, b = { a with activation }

theorem Environment.Like.refl (a : Environment) : a.Like a := ⟨a.activation, rfl⟩

/-- A result beside an environment. -/
def Beside (p q : α × Environment) : Prop := q.1 = p.1 ∧ p.2.Like q.2

theorem Beside.refl (p : α × Environment) : Beside p p := ⟨rfl, .refl p.2⟩

inductive Outcome.Like : Outcome → Outcome → Prop
  | next {a b : Environment} (h : a.Like b) : Like (.next a) (.next b)
  | returned (v : Value) (globals : Frame) : Like (.returned v globals) (.returned v globals)

theorem Outcome.Like.refl (o : Outcome) : o.Like o := by
  cases o with
  | next env => exact .next (.refl env)
  | returned v globals => exact .returned v globals

namespace Reference

variable {env env' : Environment}

theorem resolveFrom_like (h : env.Like env') (n : Name) (seen : List Name.Key) :
    resolveFrom env' n seen = resolveFrom env n seen := by
  obtain ⟨activation, rfl⟩ := h
  have same (n : Name) : Environment.get? { env with activation } n = env.get? n := rfl
  fun_induction resolveFrom env n seen with
  | case1 n seen missing => exact resolveFrom_missing ((same n).trans missing) seen
  | case2 n seen array i bound again => exact resolveFrom_again ((same n).trans bound) again
  | case3 n seen array i bound fresh _ v r ih | case4 n seen array i bound fresh _ v r ih =>
      rw [resolveFrom_ref ((same n).trans bound) fresh, ih, r]
      rfl
  | case5 n seen v notRef bound =>
      refine resolveFrom_plain ((same n).trans bound) ?_ seen
      cases v with
      | ref array i => exact (notRef array i rfl).elim
      | _ => rfl

theorem resolve_like (h : env.Like env') (n : Name) : resolve env' n = resolve env n :=
  resolveFrom_like h n []

end Reference

/-- Results that depend on frames only: the same failure, or values that are alike. -/
inductive ResultsLike (R : α → α → Prop) : Except Failure α → Except Failure α → Prop
  | ok {a b : α} (h : R a b) : ResultsLike R (.ok a) (.ok b)
  | error (e : Failure) : ResultsLike R (.error e) (.error e)

theorem Environment.Like.set {env env' : Environment} (h : env.Like env') (n : Name) (v : Value) :
    ResultsLike Environment.Like (env.set n v) (env'.set n v) := by
  obtain ⟨activation, rfl⟩ := h
  have same : Environment.scope? { env with activation } n = env.scope? n := rfl
  unfold Environment.set
  rw [same]
  cases env.scope? n with
  | none => exact .error _
  | some scope =>
      cases scope with
      | «local» => exact .ok ⟨activation, rfl⟩
      | global => exact .ok ⟨activation, rfl⟩

namespace Reference

variable {env env' : Environment}

theorem storeFrom_like (h : env.Like env') (n : Name) (v : Value) (seen : List Name.Key) :
    ResultsLike Environment.Like (storeFrom env n v seen) (storeFrom env' n v seen) := by
  have same (n : Name) : env'.get? n = env.get? n := by
    obtain ⟨activation, rfl⟩ := h
    rfl
  fun_induction storeFrom env n v seen with
  | case1 n v seen missing =>
      rw [storeFrom_missing ((same n).trans missing)]
      exact .error _
  | case2 n v seen array i bound again =>
      rw [storeFrom_again ((same n).trans bound) again]
      exact .error _
  | case3 n v seen array i bound fresh _ updated r ih =>
      rw [storeFrom_ref ((same n).trans bound) fresh, resolve_like h, r]
      exact ih
  | case4 n v seen array i bound fresh _ e r =>
      rw [storeFrom_ref ((same n).trans bound) fresh, resolve_like h, r]
      exact .error e
  | case5 n v seen held notRef bound =>
      have plain : held.isRef = false := by
        cases held with
        | ref array i => exact (notRef array i rfl).elim
        | _ => rfl
      rw [storeFrom_plain ((same n).trans bound) plain]
      exact h.set n v

theorem store_like (h : env.Like env') (n : Name) (v : Value) :
    ResultsLike Environment.Like (store env n v) (store env' n v) :=
  storeFrom_like h n v []

end Reference

/-! ## Simulations -/

/-- One of two sides. -/
inductive Side where
  | first
  | second

/-- The side has no more of something than the other. -/
def Side.Le : Side → Nat → Nat → Prop
  | .first, m, n => m ≤ n
  | .second, m, n => n ≤ m

/-- How a run goes along with another. -/
structure Simulation where
  /-- The side that may run out of fuel before the other. -/
  short : Side
  /-- The failures on which the first side may give up while the second goes on. -/
  leaves : Failure → Prop
  debugLevel : Int
  /-- The statements of the second run that stand for those of the first. -/
  stmt : Node → Node → Prop

namespace Simulation

variable {T : Simulation}

/-- The same function, with the statements that stand for those of its body. -/
inductive Function (T : Simulation) : Node → Node → Prop
  | funcDecl (name : Json) (params decls : List Node) {body body' : List Node}
      (h : List.Forall₂ T.stmt body body') :
      Function T (.funcDecl name params decls body) (.funcDecl name params decls body')
  | other {n : Node} (h : ∀ name params decls body, n ≠ .funcDecl name params decls body) :
      Function T n n

/-- The same names in the same order, each for the same function. -/
def Tables (T : Simulation) : Functions → Functions → Prop :=
  List.Forall₂ fun e e' => e'.1 = e.1 ∧ T.Function e.2 e'.2

/-- The same has been done in both studios. Debug messages, if there are any, go to the log. -/
structure Studios (T : Simulation) (s t : Studio) : Prop where
  rest : s.Like t
  tables : T.Tables s.functions t.functions
  isOpen : 0 < T.debugLevel → s.log.isOpen = true

/-- How the second of two computations ends, given how the first does. -/
inductive Ends (T : Simulation) (R : α → α → Prop) :
    Ending α × Studio → Ending α × Studio → Prop
  | done {a b : α} {s t : Studio} (alike : R a b) (h : T.Studios s t) :
      Ends T R (.done a, s) (.done b, t)
  | failed (e : Failure) {s t : Studio} (h : T.Studios s t) : Ends T R (.failed e, s) (.failed e, t)
  | left {e : Failure} {s : Studio} {r : Ending α × Studio} (leaves : T.leaves e)
      (isOpen : 0 < T.debugLevel → s.log.isOpen = true)
      (more : s.console.toList <+: r.2.console.toList) : Ends T R (.failed e, s) r
  | cutFirst {s : Studio} {r : Ending α × Studio} (short : T.short = .first) :
      Ends T R (.unfinished, s) r
  | cutSecond {t : Studio} {r : Ending α × Studio} (short : T.short = .second) :
      Ends T R r (.unfinished, t)

/-- Started in studios that go along, the second computation does as the first. -/
structure Follows (T : Simulation) (R : α → α → Prop) (x y : Act α) : Prop where
  ends : ∀ s t, T.Studios s t → T.Ends R (x s) (y t)
  grows : y.Grows

namespace Follows

variable {R : α → α → Prop} {Q : β → β → Prop} {x y : Act α}

theorem pure {a b : α} (h : R a b) : T.Follows R (pure a) (pure b) :=
  ⟨fun _ _ hst => .done h hst, .pure b⟩

theorem fail (e : Failure) : T.Follows R (Act.fail e) (Act.fail e) :=
  ⟨fun _ _ hst => .failed e hst, .of_eq fun _ => rfl⟩

/-- A side that may run out of fuel has done so. -/
theorem unfinishedFirst (short : T.short = .first) (grows : y.Grows) :
    T.Follows R Act.unfinished y :=
  ⟨fun _ _ _ => .cutFirst short, grows⟩

theorem unfinishedSecond (short : T.short = .second) : T.Follows R x Act.unfinished :=
  ⟨fun _ _ _ => .cutSecond short, .of_eq fun _ => rfl⟩

/-- The relation has to be reflexive: if the first side has given up, whatever the second comes to
    is to be followed by a computation that adds lines only. -/
theorem bind {f g : α → Act β} (first : T.Follows R x y) (refl : ∀ a, R a a)
    (next : ∀ a b, R a b → T.Follows Q (f a) (g b)) : T.Follows Q (x >>= f) (y >>= g) := by
  have grows (b : α) : (g b).Grows := (next b b (refl b)).grows
  refine ⟨fun s t hst => ?_, first.grows.bind grows⟩
  have ends := first.ends s t hst
  have onward : (y t).2.console.toList <+: (Act.bind y g t).2.console.toList := by
    unfold Act.bind
    rcases y t with ⟨b | e | _, u⟩
    · exact grows b u
    · exact List.prefix_rfl
    · exact List.prefix_rfl
  show T.Ends Q (Act.bind x f s) (Act.bind y g t)
  unfold Act.bind at onward ⊢
  generalize x s = p at ends ⊢
  generalize y t = q at ends onward ⊢
  cases ends with
  | done alike h => exact (next _ _ alike).ends _ _ h
  | failed e h => exact .failed e h
  | left leaves isOpen more => exact .left leaves isOpen (more.trans onward)
  | cutFirst short => exact .cutFirst short
  | cutSecond short => exact .cutSecond short

/-- Results that are equal on both sides. -/
theorem bindSame {f g : α → Act β} (first : T.Follows Eq x y)
    (next : ∀ a, T.Follows Q (f a) (g a)) : T.Follows Q (x >>= f) (y >>= g) :=
  first.bind (fun _ => rfl) fun a _ same => same ▸ next a

/-- Results beside an environment. -/
theorem bindBeside {x y : Act (α × Environment)} {f g : α × Environment → Act β}
    (first : T.Follows Beside x y)
    (next : ∀ a env env', env.Like env' → T.Follows Q (f (a, env)) (g (a, env'))) :
    T.Follows Q (x >>= f) (y >>= g) := by
  refine first.bind Beside.refl ?_
  rintro ⟨a, env⟩ ⟨_, env'⟩ ⟨rfl, he⟩
  exact next _ env env' he

theorem bindOutcome {x y : Act Outcome} {f g : Outcome → Act β}
    (first : T.Follows Outcome.Like x y)
    (next : ∀ env env', env.Like env' → T.Follows Q (f (.next env)) (g (.next env')))
    (returned : ∀ v globals, T.Follows Q (f (.returned v globals)) (g (.returned v globals))) :
    T.Follows Q (x >>= f) (y >>= g) := by
  refine first.bind Outcome.Like.refl ?_
  rintro _ _ (⟨he⟩ | ⟨v, globals⟩)
  · exact next _ _ he
  · exact returned v globals

theorem lift {r r' : Except Failure α} (h : ResultsLike R r r') :
    T.Follows R (Act.lift r) (Act.lift r') := by
  cases h with
  | ok h => exact pure h
  | error e => exact fail e

theorem lift_bind (r : Except Failure α) {f g : α → Act β}
    (next : ∀ a, T.Follows Q (f a) (g a)) :
    T.Follows Q (Act.lift r >>= f) (Act.lift r >>= g) := by
  refine bindSame (lift ?_) next
  cases r with
  | ok a => exact .ok rfl
  | error e => exact .error e

theorem modify {f g : Studio → Studio} (studios : ∀ s t, T.Studios s t → T.Studios (f s) (g t))
    (grows : ∀ t, t.console.toList <+: (g t).console.toList) :
    T.Follows Eq (Act.modify f) (Act.modify g) :=
  ⟨fun s t h => .done rfl (studios s t h), grows⟩

/-- What is noted does not matter. -/
theorem note (e e' : Event) : T.Follows Eq (Act.note e) (Act.note e') := by
  refine modify ?_ fun _ => List.prefix_rfl
  rintro s _ ⟨⟨functions, history, rfl⟩, tables, isOpen⟩
  exact ⟨⟨functions, _, rfl⟩, tables, isOpen⟩

/-- The second side may note more than the first. -/
theorem amidNotes (h : T.Follows R x y) (before : Event) (after : α → Event) :
    T.Follows R x (do Act.note before; let a ← y; Act.note (after a); return a) := by
  refine ⟨fun s t hst => ?_, fun t => ?_⟩
  · have noted (e : Event) {s t : Studio} (h : T.Studios s t) : T.Studios s (t.noted e) := by
      obtain ⟨⟨functions, history, rfl⟩, tables, isOpen⟩ := h
      exact ⟨⟨functions, _, rfl⟩, tables, isOpen⟩
    have ends := h.ends s (t.noted before) (noted before hst)
    show T.Ends R (x s) (Act.bind y _ (t.noted before))
    unfold Act.bind
    generalize x s = p at ends ⊢
    generalize y (t.noted before) = q at ends ⊢
    cases ends with
    | done alike h => exact .done alike (noted _ h)
    | failed e h => exact .failed e h
    | left leaves isOpen more =>
        refine .left leaves isOpen ?_
        rcases q with ⟨a | e | _, t⟩ <;> exact more
    | cutFirst short => exact .cutFirst short
    | cutSecond short => exact .cutSecond short
  · exact h.grows.bind (fun a => .of_eq fun _ => rfl) (t.noted before)

theorem require (c : Prop) [Decidable c] (f : Fault) :
    T.Follows Eq (Act.require c f) (Act.require c f) := by
  unfold Act.require
  split
  · exact pure rfl
  · exact fail (.fault f)

theorem debug (text : String) :
    T.Follows Eq (Act.modify fun s => s.debug text) (Act.modify fun s => s.debug text) := by
  refine modify ?_ fun t => t.console_debug text
  rintro s _ ⟨⟨functions, history, rfl⟩, tables, isOpen⟩
  unfold Studio.debug
  dsimp only
  split
  · exact ⟨⟨functions, history, rfl⟩, tables, isOpen⟩
  · exact ⟨⟨functions, history, rfl⟩, tables, isOpen⟩

/-- As many calls are under way on both sides. -/
theorem readDepth_bind {f g : Int → Act β} (next : ∀ d, T.Follows Q (f d) (g d)) :
    T.Follows Q (Act.read Studio.depth >>= f) (Act.read Studio.depth >>= g) := by
  refine ⟨?_, Act.Grows.bind (.of_eq fun _ => rfl) fun d => (next d).grows⟩
  intro s t h
  obtain ⟨functions, history, rfl⟩ := h.rest
  exact (next s.depth).ends _ _ h

theorem inCall (h : T.Follows R x y) : T.Follows R (Act.inCall x) (Act.inCall y) := by
  refine ⟨?_, fun t => h.grows { t with depth := t.depth + 1 }⟩
  rintro s _ ⟨⟨functions, history, rfl⟩, tables, isOpen⟩
  have inside : T.Studios { s with depth := s.depth + 1 }
      { s with functions, history, depth := s.depth + 1 } := ⟨⟨_, _, rfl⟩, tables, isOpen⟩
  have ends := h.ends _ _ inside
  have left {s' t' : Studio} (h : T.Studios s' t') :
      T.Studios { s' with depth := s'.depth - 1 } { t' with depth := t'.depth - 1 } := by
    obtain ⟨⟨functions, history, rfl⟩, tables, isOpen⟩ := h
    exact ⟨⟨_, _, rfl⟩, tables, isOpen⟩
  unfold Act.inCall
  dsimp only
  generalize x { s with depth := s.depth + 1 } = p at ends ⊢
  generalize y { s with functions, history, depth := s.depth + 1 } = q at ends ⊢
  cases ends with
  | done alike h => exact .done alike (left h)
  | failed e h => exact .failed e (left h)
  | left leaves isOpen more => exact .left leaves isOpen more
  | cutFirst short => exact .cutFirst short
  | cutSecond short => exact .cutSecond short

/-! ### Built-in functions -/

/-- Built-in functions need only what the two studios have in common. -/
theorem even : (⟨T.Studios, False⟩ : Coupling).Even where
  track := by rintro s _ ⟨⟨_, _, rfl⟩, _, _⟩; rfl
  random := by rintro s _ ⟨⟨_, _, rfl⟩, _, _⟩; rfl
  noted := by rintro e s _ ⟨⟨_, _, rfl⟩, tables, isOpen⟩; exact ⟨⟨_, _, rfl⟩, tables, isOpen⟩
  depth := by rintro d s _ ⟨⟨_, _, rfl⟩, tables, isOpen⟩; exact ⟨⟨_, _, rfl⟩, tables, isOpen⟩
  printed := by rintro line s _ ⟨⟨_, _, rfl⟩, tables, isOpen⟩; exact ⟨⟨_, _, rfl⟩, tables, isOpen⟩
  drawn := by rintro random s _ ⟨⟨_, _, rfl⟩, tables, isOpen⟩; exact ⟨⟨_, _, rfl⟩, tables, isOpen⟩
  mixed := by rintro track f s _ ⟨⟨_, _, rfl⟩, tables, isOpen⟩; exact ⟨⟨_, _, rfl⟩, tables, isOpen⟩

theorem perform (room : Value.Room) (b : Builtin) (args : List Value) :
    T.Follows Eq (b.perform room args) (b.perform room args) := by
  refine ⟨fun s t h => ?_, .perform room b args⟩
  have depth : t.depth = s.depth := by
    obtain ⟨_, _, rfl⟩ := h.rest
    rfl
  have ends := even.perform_agrees (I := .anything) room b args s t trivial ⟨h, rfl, depth⟩
  generalize b.perform room args s = p at ends ⊢
  generalize b.perform room args t = q at ends ⊢
  cases ends with
  | done a h => exact .done rfl h.studios
  | failed e h => exact .failed e h.studios
  | cut never => exact never.elim

end Follows

end Simulation

end Cadence
