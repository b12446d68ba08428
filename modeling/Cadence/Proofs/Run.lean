/-
  Invariants of whole runs.

  `Invariant.Launched`: what a program has to give for an invariant to hold from the moment its
  functions are declared. `Launched.run_ends` says how a run then ends: with a value and the studio
  in order, or with a failure that the invariant allows, which is then noted and the track reset, or
  cut short.
-/
import Cadence.Proofs.Induction

namespace Cadence

variable {ι : Type} {I : Invariant ι} {options : Options}

/-- What an invariant needs of the declarations of a program. -/
structure Invariant.Launched (I : Invariant ι) (options : Options) (decls functions : List Node) :
    Prop where
  named : ∀ f ∈ functions, I.Allows (f.nameField >>= Operator.nameOf) fun _ => True
  declared : ∀ f ∈ functions, ∀ name s, I.studio s →
    I.studio { s with functions := s.functions.insert name f }
  globals : I.Allows (Frame.declare [] decls) I.globals
  kept : ∀ s, I.studio s → I.Kept (Session.context options s.functions)

namespace Invariant.Launched

variable {decls functions : List Node}

theorem debug_studio (h : I.Launched options decls functions) {s : Studio} (hs : I.studio s)
    (text : String) : I.studio (Session.debug options text s) := by
  unfold Session.debug
  split
  · next pos => exact (h.kept s hs).debugged pos text s hs
  · exact hs

theorem declareFunctions_keeps (h : I.Launched options decls functions) :
    ∀ rest : List Node, (∀ f ∈ rest, f ∈ functions) →
      I.Keeps (Session.declareFunctions options rest) fun _ => True
  | [], _ => Keeps.pure trivial
  | f :: rest, sub => by
      have member : f ∈ functions := sub f List.mem_cons_self
      unfold Session.declareFunctions
      refine (Keeps.lift (h.named f member)).bind fun name _ => ?_
      refine (Keeps.read (Q := fun _ => True) fun _ _ => trivial).bind fun _ _ => ?_
      refine (Keeps.modify fun s hs => ?_).bind fun _ _ => ?_
      · split
        · exact h.debug_studio hs _
        · exact hs
      refine (Keeps.modify fun s hs => h.declared f member name s hs).bind fun _ _ => ?_
      exact declareFunctions_keeps h rest fun g hg => sub g (List.mem_cons_of_mem _ hg)

theorem launch_keeps (h : I.Launched options decls functions) (fuel : Nat) :
    I.Keeps (Session.launch options fuel decls functions) I.value := by
  unfold Session.launch
  refine (h.declareFunctions_keeps functions fun _ hf => hf).bind fun _ _ => ?_
  refine (Keeps.read (f := Studio.functions)
    (Q := fun table => I.Kept (Session.context options table)) h.kept).bind fun table hI => ?_
  refine (Keeps.lift h.globals).bind fun globals hg => ?_
  cases found : table.get? (.text "main") with
  | none => exact hI.fault_keeps _ _
  | some main =>
      refine (Keeps.modify fun s hs => h.debug_studio hs _).bind fun _ _ => ?_
      refine (hI.callFunction_keeps (hI.machine_respects fuel 0) found (by simp) hg).bind ?_
      rintro ⟨v, _⟩ ⟨hv, -⟩
      refine (hI.text_keeps hv).bind fun text _ => ?_
      exact (Keeps.modify fun s hs => h.debug_studio hs _).bind fun _ _ => Keeps.pure hv

end Invariant.Launched

theorem Invariant.anything_launched (options : Options) (decls functions : List Node) :
    anything.Launched options decls functions where
  named _ _ := ofStudio_allows (fun _ _ _ => trivial) _ fun _ => trivial
  declared _ _ _ _ _ := trivial
  globals := ofStudio_allows (fun _ _ _ => trivial) _ fun _ => trivial
  kept _ _ := anything_kept _

theorem Context.enter_unbounded {ctx : Context} (none : ctx.nesting = none) (level : Nat) :
    ctx.enter level = pure () := by
  unfold enter
  rw [none]
  rfl

/-- The limit on nesting is one that a run accepts. -/
def Options.Accepted (options : Options) : Prop :=
  options.nesting.any (Session.maxNesting < ·) = false

/-- How a run of a session ends, given how its work does. -/
theorem Session.run_eq {session : Session} (ok : session.options.Accepted) (fuel : Nat)
    (program : Node) :
    session.run fuel program =
      match start session.options fuel program (openLog session.options session.studio) with
      | (.done v, s) => (.done v, { session with studio := s.closeLog })
      | (.failed e, s) =>
          (.failed e, { session with studio := (abort session.options e s).closeLog })
      | (.unfinished, s) => (.unfinished, { session with studio := s }) := by
  have within : ¬ session.options.nesting.any (maxNesting < ·) = true := by
    rw [ok]
    decide
  exact if_neg within

/-- A run that is not accepted opens the log and does nothing more. -/
theorem Session.run_of_not_accepted {session : Session} (no : ¬ session.options.Accepted)
    (fuel : Nat) (program : Node) :
    session.run fuel program = (.failed (.defect .limitTooLarge),
      { session with studio := openLog session.options session.studio }) := by
  have excess : session.options.nesting.any (maxNesting < ·) = true := by
    simpa [Options.Accepted] using no
  exact if_pos excess

/-- The session with a given limit on calls, and with none on nesting. -/
def Session.limited (session : Session) (limit : Int) : Session :=
  { session with options := { session.options with maxDepth := limit, nesting := none } }

/-- Opening the log has to do with the log only, and with the track file if that is the same. -/
theorem Session.openLog_eq (options : Options) (s : Studio) :
    ∃ log shared, openLog options s = { s with log, shared } ∧
      shared.isSome = s.shared.isSome := by
  unfold openLog Studio.openLog
  split
  · split
    · exact ⟨_, _, rfl, rfl⟩
    · exact ⟨_, _, rfl, Option.isSome_map⟩
  · exact ⟨_, _, rfl, rfl⟩

theorem Session.isOpen_openLog (options : Options) (s : Studio) (pos : 0 < options.debugLevel) :
    (openLog options s).log.isOpen = true := by
  unfold openLog Studio.openLog
  rw [if_pos pos]
  split
  · assumption
  · rfl

def Ending.isDone {α : Type} : Ending α → Bool
  | .done _ => true
  | _ => false

theorem Ending.eq_done {α : Type} {r : Ending α} (h : r.isDone = true) : ∃ a, r = .done a := by
  cases r with
  | done a => exact ⟨a, rfl⟩
  | _ => cases h

theorem Ending.ne_unfinished {α : Type} {r : Ending α} (h : r.isDone = true) : r ≠ .unfinished := by
  obtain ⟨a, rfl⟩ := eq_done h
  exact nofun

/-- The session after some runs, each with its fuel. -/
def Session.afterRuns (session : Session) : List (Nat × Node) → Session
  | [] => session
  | (fuel, program) :: rest => (session.run fuel program).2.afterRuns rest

theorem Session.options_run (session : Session) (fuel : Nat) (program : Node) :
    (session.run fuel program).2.options = session.options := by
  unfold Session.run
  dsimp only
  split
  · rfl
  · split <;> rfl

theorem Session.options_afterRuns (runs : List (Nat × Node)) (session : Session) :
    (session.afterRuns runs).options = session.options := by
  induction runs generalizing session with
  | nil => rfl
  | cons r rest ih => exact (ih _).trans (session.options_run r.1 r.2)

namespace Invariant.Launched

theorem run_ends {session : Session} {decls functions : List Node}
    (h : I.Launched session.options decls functions) (ok : session.options.Accepted) (fuel : Nat)
    (hs : I.studio (Session.cleared (Session.openLog session.options session.studio))) :
    match session.run fuel (.program decls functions) with
    | (.done v, after) => I.value v ∧ ∃ t, I.studio t ∧ after.studio = t.closeLog
    | (.failed e, after) =>
        ∃ t, I.failed e t ∧ after.studio = (Session.abort session.options e t).closeLog
    | (.unfinished, after) => I.cut after.studio := by
  have work := h.launch_keeps fuel _ hs
  rw [Session.run_eq ok]
  rcases e : Session.start session.options fuel (.program decls functions)
    (Session.openLog session.options session.studio) with ⟨v | e | _, t⟩ <;>
    rw [show Session.launch session.options fuel decls functions
      (Session.cleared (Session.openLog session.options session.studio)) = _ from e] at work
  · exact ⟨work.1, t, work.2, rfl⟩
  · exact ⟨t, work, rfl⟩
  · exact work

end Invariant.Launched

end Cadence
