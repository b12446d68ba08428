/-
  The limit on calls.

  A higher limit changes nothing for a run that keeps within the lower one, and a run that the lower
  limit stops has shown nothing that it would not have shown otherwise (`run_maxDepth`). The two
  runs are simulated step by step: the number of calls under way is the same on both sides, so up to
  the first call that only the higher limit allows there is no difference between them.
-/
import Cadence.Proofs.SimulatedRuns
import Cadence.Proofs.Termination

namespace Cadence

/-- The first side may give up at its limit on calls. -/
def Simulation.belowLimit (limit debugLevel : Int) : Simulation where
  short := .first
  leaves e := ∃ f, e = .fault (.callDepth limit f)
  debugLevel
  stmt := Eq

theorem Session.limited_runsEnd (session : Session) (program : Node) {d d' : Int} (le : d ≤ d')
    {fuel fuel' : Nat} (enough : fuel ≤ fuel') :
    (Simulation.belowLimit d session.options.debugLevel).RunsEnd
      ((session.limited d).run fuel program) ((session.limited d').run fuel' program) := by
  have sessions : (Simulation.belowLimit d session.options.debugLevel).OnSessions
      (session.limited d).options (session.limited d').options :=
    ⟨rfl, rfl, rfl, rfl, .inr ⟨le, fun f => ⟨f, rfl⟩⟩⟩
  refine Simulation.run_follows sessions session.studio
    (Simulation.programs_refl (fun _ => rfl) program) fun table table' tables => ?_
  refine Simulation.machines_follow (sessions.contexts tables) ?_ fuel' fuel enough 0 0
  rintro n _ rfl
  exact Simulation.recasts_refl (fun _ => rfl) n

/-- Raising the limit on calls is safe, whatever the session, the state it is in and the tree. A run
    that ends, and not for lack of calls or levels, ends in the same way under any higher limit, and
    it does the same. If it is stopped at the limit, then a run under a higher limit that ends has
    begun by showing the same lines. -/
theorem run_maxDepth (session : Session) (program : Node) {d d' : Int} (le : d ≤ d') :
    (∀ fuel, ((session.limited d).run fuel program).1 ≠ .unfinished →
      (∀ f, ((session.limited d).run fuel program).1 = .failed (.fault f) →
        f.kind ≠ .stackOverflow) →
      ∀ fuel', fuel ≤ fuel' →
        ((session.limited d').run fuel' program).1 = ((session.limited d).run fuel program).1 ∧
        ((session.limited d).run fuel program).2.studio.Like
          ((session.limited d').run fuel' program).2.studio) ∧
    ∀ fuel fuel' limit f,
      ((session.limited d).run fuel program).1 = .failed (.fault (.callDepth limit f)) →
      ((session.limited d').run fuel' program).1 ≠ .unfinished →
      ((session.limited d).run fuel program).2.studio.console.toList <+:
        ((session.limited d').run fuel' program).2.studio.console.toList := by
  refine ⟨fun fuel ended within fuel' enough => ?_, fun fuel fuel' limit f stopped ended' => ?_⟩
  · have ends := session.limited_runsEnd program le enough
    generalize (session.limited d).run fuel program = p at ended within ends ⊢
    generalize (session.limited d').run fuel' program = q at ends ⊢
    cases ends with
    | done v h => exact ⟨rfl, h⟩
    | failed e h => exact ⟨rfl, h⟩
    | left leaves more =>
        obtain ⟨f, rfl⟩ := leaves
        exact absurd rfl (within _ rfl)
    | cutFirst => exact absurd rfl ended
    | cutSecond short => cases short
  · -- with the fuel of both, each of the two runs still ends as it does
    have ends := session.limited_runsEnd program le (Nat.le_refl (max fuel fuel'))
    have ended : ((session.limited d).run fuel program).1 ≠ .unfinished := by
      rw [stopped]
      exact nofun
    rw [Session.run_of_le (Nat.le_max_left fuel fuel') ended,
      Session.run_of_le (Nat.le_max_right fuel fuel') ended'] at ends
    generalize (session.limited d).run fuel program = p at stopped ends ⊢
    generalize (session.limited d').run fuel' program = q at ends ⊢
    cases ends with
    | done | cutFirst => cases stopped
    | failed e h =>
        obtain ⟨functions, history, same⟩ := h
        exact ⟨[], by rw [same, List.append_nil]⟩
    | left leaves more => exact more
    | cutSecond short => cases short

theorem Ending.eq_callDepth {r : Ending Value} (h : r matches .failed (.fault (.callDepth ..))) :
    ∃ limit f, r = .failed (.fault (.callDepth limit f)) := by
  split at h
  · exact ⟨_, _, rfl⟩
  · cases h

/-- A function counts up to three and calls itself each time. Two calls at once are too few for it
    and four are enough. -/
theorem run_maxDepth_counting : ∃ session program,
    session = Session.new {} ∧
    program = Node.program [.varDecl (.text "int") (.text "n")]
      [.funcDecl (.text "count") [] []
        [.exprStmt (.assign (.ident (.text "n")) (.binaryOp (.text "+") (.ident (.text "n"))
          (.literal (.plain (.int 1)) (.text "int")))),
         .exprStmt (.call (.text "print") [.ident (.text "n")]),
         .ifStmt (.binaryOp (.text "<") (.ident (.text "n"))
             (.literal (.plain (.int 3)) (.text "int")))
           (.exprStmt (.call (.text "count") [])) .absent],
       .funcDecl (.text "main") [] [] [.returnStmt (.call (.text "count") [])]] ∧
    (((session.limited 2).run 40 program).1 matches .failed (.fault (.callDepth ..))) ∧
    ((session.limited 2).run 40 program).2.studio.console = #[.printed "1"] ∧
    ((session.limited 4).run 40 program).1.isDone ∧
    ((session.limited 2).run 40 program).2.studio.console.toList <+:
      ((session.limited 4).run 40 program).2.studio.console.toList ∧
    ((session.limited 4).run 40 program).2.studio.Like
      ((session.limited 9).run 50 program).2.studio := by
  refine ⟨_, _, rfl, rfl, ?stopped, by decide +kernel, ?ended, ?_⟩
  · decide +kernel
  · decide +kernel
  obtain ⟨limit, f, stopped⟩ := Ending.eq_callDepth ?stopped
  obtain ⟨v, done⟩ := Ending.eq_done ?ended
  have ended := Ending.ne_unfinished ?ended
  refine ⟨(run_maxDepth _ _ (by decide)).2 40 40 limit f stopped ended,
    ((run_maxDepth _ _ (by decide)).1 40 ended ?_ 50 (by decide)).2⟩
  rw [done]
  nofun

end Cadence
