/-
  Two runs side by side.

  A `Coupling` relates the studios of two runs. Two computations agree (`Agrees`) if, started in
  related studios with as many calls under way, they end alike, again in related studios and with
  as many calls under way. The two sides may differ in their fuel, in their studios and in the level
  of their debug messages. Values and environments are the same on both sides, and what is known of
  them is kept in an invariant of the first run. It has to rule out that composing a debug message
  fails where only one side composes it.

  Here are the rules for single computations, and what a coupling has to satisfy (`Kept`) for
  `Proofs.Lockstep` to carry agreement over whole nodes.
-/
import Cadence.Proofs.Induction

namespace Cadence

/-! ## Agreement -/

/-- A loop that only its condition can end. -/
def Node.openEnded : Node → Bool
  | .whileStmt .. | .forStmt .. => true
  | _ => false

/-- Whatever is a value can be written out. -/
structure Invariant.Writes {ι : Type} (I : Invariant ι) (room : Value.Room) : Prop where
  text : ∀ v, I.value v → ∃ text, v.text room = .ok text
  texts : ∀ vs, (∀ v ∈ vs, I.value v) → ∃ text, Value.texts room vs = .ok text

/-- How two runs go along with each other. -/
structure Coupling where
  /-- The studios of the two runs. -/
  studios : Studio → Studio → Prop
  /-- Whether the first run may be cut short, whatever the second then does. -/
  cut : Prop

namespace Coupling

variable {ι α β : Type} {C : Coupling} {I : Invariant ι} {d : Int}

/-- Related studios with `d` calls under way. -/
structure Abreast (C : Coupling) (d : Int) (s t : Studio) : Prop where
  studios : C.studios s t
  first : s.depth = d
  second : t.depth = d

/-- The two sides have ended alike, or the first has been cut short. -/
inductive Ends (C : Coupling) (d : Int) : Ending α × Studio → Ending α × Studio → Prop
  | done (a : α) {s t : Studio} (h : C.Abreast d s t) : Ends C d (.done a, s) (.done a, t)
  | failed (e : Failure) {s t : Studio} (h : C.Abreast d s t) :
      Ends C d (.failed e, s) (.failed e, t)
  | cut {s : Studio} {r : Ending α × Studio} (h : C.cut) : Ends C d (.unfinished, s) r

/-- Two computations that are started abreast, the first in order, end alike. -/
def Agrees (C : Coupling) (I : Invariant ι) (d : Int) (x y : Act α) : Prop :=
  ∀ s t, I.studio s → C.Abreast d s t → C.Ends d (x s) (y t)

namespace Agrees

theorem pure (a : α) : C.Agrees I d (pure a) (pure a) := fun _ _ _ h => .done a h

theorem fail (e : Failure) : C.Agrees I d (Act.fail e : Act α) (Act.fail e) :=
  fun _ _ _ h => .failed e h

theorem lift (r : Except Failure α) : C.Agrees I d (Act.lift r) (Act.lift r) := by
  cases r with
  | ok a => exact pure a
  | error e => exact fail e

/-- What the first computation is known to give is given to both continuations. -/
theorem bind {x y : Act α} {f g : α → Act β} {Q : α → Prop} (first : C.Agrees I d x y)
    (keeps : I.Keeps x Q) (next : ∀ a, Q a → C.Agrees I d (f a) (g a)) :
    C.Agrees I d (x >>= f) (y >>= g) := by
  intro s t hs h
  have ends := first s t hs h
  have kept := keeps s hs
  show C.Ends d (Act.bind x f s) (Act.bind y g t)
  unfold Act.bind
  generalize x s = p at ends kept ⊢
  generalize y t = q at ends ⊢
  cases ends with
  | done a h => exact next a kept.1 _ _ kept.2 h
  | failed e h => exact .failed e h
  | cut h => exact .cut h

theorem lift_bind {r : Except Failure α} {f g : α → Act β} {Q : α → Prop} (allows : I.Allows r Q)
    (next : ∀ a, r = .ok a → Q a → C.Agrees I d (f a) (g a)) :
    C.Agrees I d (Act.lift r >>= f) (Act.lift r >>= g) :=
  (lift r).bind (Invariant.Keeps.lift_eq allows) fun a h => next a h.1 h.2

theorem require (c : Prop) [Decidable c] (f : Fault) :
    C.Agrees I d (Act.require c f) (Act.require c f) := by
  unfold Act.require
  split
  · exact pure ()
  · exact fail (.fault f)

theorem modify {f g : Studio → Studio} (studios : ∀ s t, C.studios s t → C.studios (f s) (g t))
    (first : ∀ s, (f s).depth = s.depth) (second : ∀ t, (g t).depth = t.depth) :
    C.Agrees I d (Act.modify f) (Act.modify g) := fun s t _ h =>
  .done () ⟨studios s t h.studios, (first s).trans h.first, (second t).trans h.second⟩

/-- Both sides read the same. -/
theorem read_bind {r : Studio → α} {f g : α → Act β} {Q : α → Prop}
    (same : ∀ s t, C.studios s t → r t = r s) (known : ∀ s, I.studio s → Q (r s))
    (next : ∀ a, Q a → C.Agrees I d (f a) (g a)) :
    C.Agrees I d (Act.read r >>= f) (Act.read r >>= g) := by
  intro s t hs h
  show C.Ends d (f (r s) s) (g (r t) t)
  rw [same s t h.studios]
  exact next (r s) (known s hs) s t hs h

/-- Both sides read the same depth. -/
theorem readDepth_bind {f g : Int → Act β} (next : C.Agrees I d (f d) (g d)) :
    C.Agrees I d (Act.read Studio.depth >>= f) (Act.read Studio.depth >>= g) := by
  intro s t hs h
  show C.Ends d (f s.depth s) (g t.depth t)
  rw [h.first, h.second]
  exact next s t hs h

/-- Where nothing need be known of results, computations are put together freely. -/
theorem andThen {x y : Act α} {f g : α → Act β} (first : C.Agrees .anything d x y)
    (next : ∀ a, C.Agrees .anything d (f a) (g a)) :
    C.Agrees .anything d (x >>= f) (y >>= g) :=
  first.bind (Invariant.anything_keeps x) fun a _ => next a

end Agrees

/-! ## Built-in functions -/

/-- The two sides have what a built-in function reads in common, and whatever it does on both of
    them keeps the coupling. -/
structure Even (C : Coupling) : Prop where
  track : ∀ s t, C.studios s t → t.track = s.track
  random : ∀ s t, C.studios s t → t.random = s.random
  noted : ∀ e s t, C.studios s t → C.studios (s.noted e) (t.noted e)
  depth : ∀ d s t, C.studios s t → C.studios { s with depth := d } { t with depth := d }
  printed : ∀ line s t, C.studios s t →
    C.studios { s with console := s.console.push line } { t with console := t.console.push line }
  drawn : ∀ random s t, C.studios s t → C.studios { s with random } { t with random }
  mixed : ∀ track f s t, C.studios s t →
    C.studios { s with track, shared := s.shared.map f } { t with track, shared := t.shared.map f }

namespace Even

theorem note_agrees (hE : C.Even) (e : Event) : C.Agrees I d (Act.note e) (Act.note e) :=
  .modify (hE.noted e) (fun _ => rfl) fun _ => rfl

theorem print_agrees (hE : C.Even) (line : Line) :
    C.Agrees I d (Act.print line) (Act.print line) :=
  .modify (hE.printed line) (fun _ => rfl) fun _ => rfl

theorem randomBelow_agrees (hE : C.Even) (bound : Nat) :
    C.Agrees I d (Act.randomBelow bound) (Act.randomBelow bound) := by
  intro s t _ h
  unfold Act.randomBelow
  rw [hE.random s t h.studios]
  -- the generator is not to be run
  generalize s.random.below bound = r
  exact .done r.1 ⟨hE.drawn r.2 s t h.studios, h.first, h.second⟩

theorem randomDouble_agrees (hE : C.Even) :
    C.Agrees I d Act.randomDouble Act.randomDouble := by
  intro s t _ h
  unfold Act.randomDouble
  rw [hE.random s t h.studios]
  generalize s.random.double = r
  exact .done r.1 ⟨hE.drawn r.2 s t h.studios, h.first, h.second⟩

theorem setTempo_agrees (hE : C.Even) (tempo : Int) :
    C.Agrees I d (Act.setTempo tempo) (Act.setTempo tempo) := by
  intro s t _ h
  unfold Act.setTempo
  rw [hE.track s t h.studios]
  cases s.track.setTempo tempo with
  | error e => exact .failed e h
  | ok track =>
      have mixed := hE.mixed track id s t h.studios
      rw [Option.map_id] at mixed
      exact .done () ⟨mixed, h.first, h.second⟩

theorem mixdown_agrees (hE : C.Even) (room : Value.Room) (args : List Value) :
    C.Agrees I d (Act.mixdown room args) (Act.mixdown room args) := by
  intro s t _ h
  unfold Act.mixdown
  rw [hE.track s t h.studios]
  rcases s.track.mixdown room args with ⟨e | n, track⟩
  · exact .failed e ⟨hE.mixed track _ s t h.studios, h.first, h.second⟩
  · exact .done n
      ⟨hE.mixed track _ _ _ (hE.printed (.mixedDown n) s t h.studios), h.first, h.second⟩

theorem call_agrees (hE : C.Even) (room : Value.Room) (b : Builtin) (args : List Value) :
    C.Agrees .anything d (b.call room args) (b.call room args) := by
  cases b with
  | print =>
      refine (Agrees.lift _).andThen fun v => (Agrees.lift _).andThen fun text => ?_
      exact (hE.print_agrees _).andThen fun _ => .pure _
  | getAmplitude | getDuration | length => exact (Agrees.lift _).andThen fun _ => .pure _
  | getPitches | setAmplitude | setDuration | setPitches => exact .lift _
  | randomInt =>
      refine (Agrees.lift _).andThen fun bound => ?_
      exact (hE.randomBelow_agrees bound).andThen fun _ => .pure _
  | randomDouble =>
      refine (Agrees.lift _).andThen fun bound => ?_
      exact hE.randomDouble_agrees.andThen fun _ => .pure _
  | bpm =>
      refine (Agrees.lift _).andThen fun tempo => ?_
      exact (hE.setTempo_agrees tempo).andThen fun _ => .pure _
  | mixdown => exact (hE.mixdown_agrees room args).andThen fun _ => .pure _

theorem perform_agrees (hE : C.Even) (room : Value.Room) (b : Builtin) (args : List Value) :
    C.Agrees I d (b.perform room args) (b.perform room args) := by
  have agrees : C.Agrees .anything d (b.perform room args) (b.perform room args) :=
    (hE.note_agrees _).andThen fun _ => hE.call_agrees room b args
  exact fun s t _ h => agrees s t trivial h

end Even

/-! ## What the rules need -/

/-- The coupling is kept by whatever a rule of the language does on both sides. -/
structure Kept (C : Coupling) (I : Invariant ι) (ctx ctx' : Context) : Prop where
  /-- The same is found where the tables are looked into: behind the built-in functions. -/
  functions : ∀ name, Builtin.named? name = none →
    ctx'.functions.get? name = ctx.functions.get? name
  maxDepth : ctx'.maxDepth = ctx.maxDepth
  nesting : ctx'.nesting = ctx.nesting
  even : C.Even
  debugged : ∀ level text s t, 0 < level → C.studios s t →
    C.studios (if level ≤ ctx.debugLevel then s.debug text else s)
      (if level ≤ ctx'.debugLevel then t.debug text else t)
  /-- A message that one side alone composes cannot fail. -/
  written : ctx'.debugLevel ≠ ctx.debugLevel → I.Writes ctx.room

/-- The two machines agree on an expression of an activation. -/
structure OnExpression (C : Coupling) (I : Invariant ι) (m m' : Machine) (d : Int) (i : ι)
    (node : Node) : Prop where
  known : I.expr i node
  agrees : ∀ env, I.env i env → C.Agrees I d (m.evaluate node env) (m'.evaluate node env)

/-- The two machines agree on a statement of an activation. -/
structure OnStatement (C : Coupling) (I : Invariant ι) (m m' : Machine) (d : Int) (i : ι)
    (node : Node) : Prop where
  known : I.stmt i node
  agrees : ∀ env, I.env i env → C.Agrees I d (m.execute node env) (m'.execute node env)

/-- The two machines agree on the bodies of the functions that may be called from depth `d`. -/
def OnBodies (C : Coupling) (I : Invariant ι) (ctx : Context) (m m' : Machine) (d : Int) : Prop :=
  d < ctx.maxDepth → ∀ name f params decls body,
    ctx.functions.get? name = some (.funcDecl f params decls body) →
    ∀ i, ∀ st ∈ body, I.stmt i st → C.OnStatement I m m' (d + 1) i st

/-- The two machines agree on whatever a statement makes them evaluate or execute. A loop with a
    condition may run out of rounds. -/
structure Parts (C : Coupling) (I : Invariant ι) (m m' : Machine) (d : Int) (i : ι) (node : Node) :
    Prop where
  expressions : ∀ p ∈ node.expressions, C.OnExpression I m m' d i p
  statements : ∀ p ∈ node.statements, C.OnStatement I m m' d i p
  rounds : node.openEnded = true → C.cut ∧ m.rounds ≤ m'.rounds

section

variable {m m' : Machine} {i : ι} {node : Node} {env : Environment}

theorem OnExpression.bind {f g : Value × Environment → Act β} (h : C.OnExpression I m m' d i node)
    (hm : m.Respects I) (he : I.env i env)
    (next : ∀ v env, I.value v → I.env i env → C.Agrees I d (f (v, env)) (g (v, env))) :
    C.Agrees I d (m.evaluate node env >>= f) (m'.evaluate node env >>= g) :=
  (h.agrees env he).bind (hm.evaluate i node env h.known he) fun r hr => next r.1 r.2 hr.1 hr.2

theorem OnStatement.bind {f g : Outcome → Act β} (h : C.OnStatement I m m' d i node)
    (hm : m.Respects I) (he : I.env i env)
    (next : ∀ outcome, I.outcome i outcome → C.Agrees I d (f outcome) (g outcome)) :
    C.Agrees I d (m.execute node env >>= f) (m'.execute node env >>= g) :=
  (h.agrees env he).bind (hm.execute i node env h.known he) next

end

end Coupling

/-! ## Single computations -/

theorem Studio.depth_debug (s : Studio) (text : String) : (s.debug text).depth = s.depth := by
  unfold Studio.debug
  split <;> rfl

namespace Coupling.Kept

variable {ι α : Type} {C : Coupling} {I : Invariant ι} {d : Int}

variable {ctx ctx' : Context}

theorem room (hC : C.Kept I ctx ctx') : ctx'.room = ctx.room := by
  unfold Context.room
  rw [hC.nesting]

theorem enter_agrees (hC : C.Kept I ctx ctx') (level : Nat) :
    C.Agrees I d (ctx.enter level) (ctx'.enter level) := by
  intro s t _ h
  unfold Context.enter
  rw [hC.nesting]
  cases ctx.nesting with
  | none => exact .done () h
  | some limit =>
      by_cases deep : limit ≤ level
      · simp only [if_pos deep]
        exact .failed _ h
      · simp only [if_neg deep]
        exact .done () h

/-- A debug message, which either side may leave out. If both compose it, it may fail for both. -/
theorem debug_agrees (hC : C.Kept I ctx ctx') {level : Int} (pos : 0 < level)
    (r : Except Failure String) (f : String → String)
    (sure : ctx'.debugLevel ≠ ctx.debugLevel → ∃ text, r = .ok text) :
    C.Agrees I d (ctx.debug level do return f (← Act.lift r))
      (ctx'.debug level do return f (← Act.lift r)) := by
  intro s t _ h
  cases r with
  | ok text =>
      have written := hC.debugged level (f text) s t pos h.studios
      have result (c : Context) (u : Studio) :
          c.debug level (do return f (← Act.lift (.ok text))) u =
            (.done (), if level ≤ c.debugLevel then u.debug (f text) else u) := by
        unfold Context.debug
        split <;> rfl
      rw [result, result]
      refine .done () ⟨written, ?_, ?_⟩
      · split
        · exact (s.depth_debug _).trans h.first
        · exact h.first
      · split
        · exact (t.depth_debug _).trans h.second
        · exact h.second
  | error e =>
      have same : ctx'.debugLevel = ctx.debugLevel := by
        by_cases same : ctx'.debugLevel = ctx.debugLevel
        · exact same
        · obtain ⟨text, eq⟩ := sure same
          cases eq
      unfold Context.debug
      rw [same]
      split
      · exact .failed e h
      · exact .done () h

/-- A message about one value, and what comes after it. -/
theorem debugText_bind (hC : C.Kept I ctx ctx') (hI : I.Kept ctx) {level : Int} (pos : 0 < level)
    {v : Value} (hv : I.value v) {f : String → String} {x y : Unit → Act α}
    (next : C.Agrees I d (x ()) (y ())) :
    C.Agrees I d (ctx.debug level (do return f (← ctx.text v)) >>= x)
      (ctx'.debug level (do return f (← ctx'.text v)) >>= y) := by
  have message := hC.debug_agrees (d := d) pos (v.text ctx.room) f fun differ =>
    (hC.written differ).text v hv
  unfold Context.text
  rw [hC.room]
  refine message.bind (hI.debug_keeps pos ?_) fun _ _ => next
  exact (hI.text_keeps hv).bind fun _ _ => Invariant.Keeps.pure trivial

/-- A message about the arguments of a call, and what comes after it. -/
theorem debugTexts_bind (hC : C.Kept I ctx ctx') (hI : I.Kept ctx) {level : Int} (pos : 0 < level)
    {vs : List Value} (hvs : ∀ v ∈ vs, I.value v) {f : String → String} {x y : Unit → Act α}
    (next : C.Agrees I d (x ()) (y ())) :
    C.Agrees I d (ctx.debug level (do return f (← ctx.texts vs)) >>= x)
      (ctx'.debug level (do return f (← ctx'.texts vs)) >>= y) := by
  have message := hC.debug_agrees (d := d) pos (Value.texts ctx.room vs) f fun differ =>
    (hC.written differ).texts vs hvs
  unfold Context.texts
  rw [hC.room]
  refine message.bind (hI.debug_keeps pos ?_) fun _ _ => next
  exact (hI.texts_keeps hvs).bind fun _ _ => Invariant.Keeps.pure trivial

theorem inCall_agrees (hI : I.Kept ctx) (hC : C.Kept I ctx ctx') {x y : Act α}
    (h : C.Agrees I (d + 1) x y) : C.Agrees I d (Act.inCall x) (Act.inCall y) := by
  intro s t hs abreast
  obtain ⟨studios, rfl, second⟩ := abreast
  have inside : C.Abreast (s.depth + 1) { s with depth := s.depth + 1 }
      { t with depth := t.depth + 1 } := by
    rw [second]
    exact ⟨hC.even.depth _ s t studios, rfl, rfl⟩
  have ends := h _ _ (hI.depth (s.depth + 1) s hs) inside
  have left {s' t' : Studio} (h : C.Abreast (s.depth + 1) s' t') :
      C.Abreast s.depth { s' with depth := s'.depth - 1 } { t' with depth := t'.depth - 1 } := by
    have depth : s.depth + 1 - 1 = s.depth := by omega
    rw [h.first, h.second, depth]
    exact ⟨hC.even.depth _ s' t' h.studios, rfl, rfl⟩
  unfold Act.inCall
  generalize x { s with depth := s.depth + 1 } = p at ends ⊢
  generalize y { t with depth := t.depth + 1 } = q at ends ⊢
  cases ends with
  | done a h => exact .done a (left h)
  | failed e h => exact .failed e (left h)
  | cut h => exact .cut h

end Coupling.Kept

end Cadence
