/-
  Two runs from their beginning to their end.

  If a coupling holds between the studios of two sessions when a run of the same program begins in
  each, and the declarations keep it (`Launched`), it holds when the runs end, and they end alike
  (`Launched.run_ends`): with the same value, with the same failure, or the first of them cut short.
-/
import Cadence.Proofs.Lockstep
import Cadence.Proofs.Run

namespace Cadence

theorem Session.depth_debug (options : Options) (text : String) (s : Studio) :
    (Session.debug options text s).depth = s.depth := by
  unfold Session.debug
  split
  · exact s.depth_debug text
  · rfl

namespace Coupling

variable {ι : Type} {C : Coupling} {I : Invariant ι} {options options' : Options}

/-- What a coupling needs between two sessions. -/
structure Launched (C : Coupling) (I : Invariant ι) (options options' : Options) : Prop where
  functions : ∀ s t, C.studios s t → t.functions = s.functions
  declared : ∀ functions s t, C.studios s t →
    C.studios { s with functions } { t with functions }
  kept : ∀ table, C.Kept I (Session.context options table) (Session.context options' table)

/-- How two runs end that go along with each other. No call is under way any more. -/
inductive RunsEnd (C : Coupling) (options options' : Options) :
    Ending Value × Session → Ending Value × Session → Prop
  | done (v : Value) {s t : Studio} (h : C.Abreast 0 s t) :
      RunsEnd C options options' (.done v, ⟨options, s.closeLog⟩) (.done v, ⟨options', t.closeLog⟩)
  | failed (e : Failure) {s t : Studio} (h : C.Abreast 0 s t) :
      RunsEnd C options options' (.failed e, ⟨options, (Session.abort options e s).closeLog⟩)
        (.failed e, ⟨options', (Session.abort options' e t).closeLog⟩)
  | cut {after : Session} {r : Ending Value × Session} (h : C.cut) :
      RunsEnd C options options' (.unfinished, after) r

theorem RunsEnd.ne_unfinished {p q : Ending Value × Session} (h : C.RunsEnd options options' p q)
    (never : ¬ C.cut) : p.1 ≠ .unfinished := by
  cases h with
  | done | failed => exact nofun
  | cut h => exact absurd h never

namespace Launched

variable {decls functions : List Node} {d : Int}

theorem debug_studios (hC : C.Launched I options options') (text : String) (s t : Studio)
    (h : C.studios s t) :
    C.studios (Session.debug options text s) (Session.debug options' text t) :=
  (hC.kept []).debugged 1 text s t (by decide) h

/-- A message under a condition that both sides share. -/
theorem debug_agrees (hC : C.Launched I options options') (c : Prop) [Decidable c]
    (text : String) :
    C.Agrees I d (Act.modify fun s => if c then Session.debug options text s else s)
      (Act.modify fun s => if c then Session.debug options' text s else s) := by
  split
  · exact .modify (hC.debug_studios text) (Session.depth_debug options text)
      (Session.depth_debug options' text)
  · exact .modify (fun _ _ h => h) (fun _ => rfl) fun _ => rfl

theorem insert_agrees (hC : C.Launched I options options') (name : Name) (f : Node) :
    C.Agrees I d (Act.modify fun s => { s with functions := s.functions.insert name f })
      (Act.modify fun s => { s with functions := s.functions.insert name f }) := by
  refine .modify (fun s t h => ?_) (fun _ => rfl) fun _ => rfl
  rw [hC.functions s t h]
  exact hC.declared _ s t h

theorem declareFunctions_agrees (hC : C.Launched I options options')
    (hI : I.Launched options decls functions) :
    ∀ rest : List Node, (∀ f ∈ rest, f ∈ functions) →
      C.Agrees I d (Session.declareFunctions options rest) (Session.declareFunctions options' rest)
  | [], _ => .pure ()
  | f :: rest, sub => by
      have member : f ∈ functions := sub f List.mem_cons_self
      unfold Session.declareFunctions
      refine .lift_bind (hI.named f member) fun name _ _ => ?_
      refine .read_bind (Q := fun _ => True) hC.functions (fun _ _ => trivial) fun table _ => ?_
      refine (hC.debug_agrees _ _).bind (Invariant.Keeps.modify fun s hs => ?_) fun _ _ => ?_
      · split
        · exact hI.debug_studio hs _
        · exact hs
      refine (hC.insert_agrees name f).bind
        (Invariant.Keeps.modify fun s hs => hI.declared f member name s hs) fun _ _ => ?_
      exact declareFunctions_agrees hC hI rest fun g hg => sub g (List.mem_cons_of_mem _ hg)

variable {fuel fuel' : Nat}

theorem launch_agrees (hC : C.Launched I options options')
    (hI : I.Launched options decls functions)
    (bodies : ∀ s, I.studio s → I.Kept (Session.context options s.functions) →
      C.OnBodies I (Session.context options s.functions)
        ((Session.context options s.functions).machine fuel 0)
        ((Session.context options' s.functions).machine fuel' 0) 0) :
    C.Agrees I 0 (Session.launch options fuel decls functions)
      (Session.launch options' fuel' decls functions) := by
  unfold Session.launch
  have declares := hI.declareFunctions_keeps functions fun _ hf => hf
  refine (hC.declareFunctions_agrees hI functions fun _ hf => hf).bind declares fun _ _ => ?_
  refine .read_bind (Q := fun table => ∃ s, I.studio s ∧ s.functions = table) hC.functions
    (fun s hs => ⟨s, hs, rfl⟩) ?_
  rintro _ ⟨s, hs, rfl⟩
  have kept := hI.kept s hs
  have coupled := hC.kept s.functions
  refine .lift_bind hI.globals fun globals _ hg => ?_
  cases found : s.functions.get? (.text "main") with
  | none => exact .fail _
  | some main =>
      have debugs (text : String) :
          I.Keeps (Act.modify (Session.debug options text)) fun _ => True :=
        Invariant.Keeps.modify fun _ hs => hI.debug_studio hs text
      have noArgs : ∀ v ∈ ([] : List Value), I.value v := by simp
      have respects := kept.machine_respects fuel 0
      refine (hC.debug_agrees True _).bind (debugs _) fun _ _ => ?_
      refine (coupled.callFunction_agrees kept respects (bodies s hs kept) found noArgs hg).bind
        (kept.callFunction_keeps respects found noArgs hg) ?_
      rintro ⟨v, _⟩ ⟨hv, -⟩
      dsimp only [Context.text]
      rw [coupled.room]
      refine .lift_bind (kept.text v hv) fun text _ _ => ?_
      exact (hC.debug_agrees True _).bind (debugs _) fun _ _ => .pure v

/-- Two runs of one tree, a program or not. -/
theorem run_ends {a b : Session} (hC : C.Launched I a.options b.options) (program : Node)
    (hI : ∀ decls functions, program = .program decls functions →
      I.Launched a.options decls functions)
    (bodies : ∀ s, I.studio s → I.Kept (Session.context a.options s.functions) →
      C.OnBodies I (Session.context a.options s.functions)
        ((Session.context a.options s.functions).machine fuel 0)
        ((Session.context b.options s.functions).machine fuel' 0) 0)
    (ok : a.options.Accepted) (ok' : b.options.Accepted)
    (hs : I.studio (Session.cleared (Session.openLog a.options a.studio)))
    (studios : C.studios (Session.cleared (Session.openLog a.options a.studio))
      (Session.cleared (Session.openLog b.options b.studio))) :
    C.RunsEnd a.options b.options (a.run fuel program) (b.run fuel' program) := by
  have abreast : C.Abreast 0 _ _ := ⟨studios, rfl, rfl⟩
  rw [Session.run_eq ok, Session.run_eq ok']
  cases program with
  | program decls functions =>
      have ends : C.Ends 0
          (Session.start a.options fuel (.program decls functions)
            (Session.openLog a.options a.studio))
          (Session.start b.options fuel' (.program decls functions)
            (Session.openLog b.options b.studio)) :=
        hC.launch_agrees (hI decls functions rfl) bodies _ _ hs abreast
      generalize Session.start a.options fuel _ _ = p at ends ⊢
      generalize Session.start b.options fuel' _ _ = q at ends ⊢
      cases ends with
      | done v h => exact .done v h
      | failed e h => exact .failed e h
      | cut h => exact .cut h
  | _ => exact .failed _ abreast

/-- Two runs of which the first may be cut short before the second. -/
theorem run_ends_of_cut {a b : Session} (hC : C.Launched I a.options b.options) (program : Node)
    (hI : ∀ decls functions, program = .program decls functions →
      I.Launched a.options decls functions)
    (cut : C.cut) (le : fuel ≤ fuel') (ok : a.options.Accepted) (ok' : b.options.Accepted)
    (hs : I.studio (Session.cleared (Session.openLog a.options a.studio)))
    (studios : C.studios (Session.cleared (Session.openLog a.options a.studio))
      (Session.cleared (Session.openLog b.options b.studio))) :
    C.RunsEnd a.options b.options (a.run fuel program) (b.run fuel' program) :=
  hC.run_ends program hI
    (fun s _ kept => (hC.kept s.functions).machine_onBodies kept cut le 0 0) ok ok' hs studios

end Launched

end Coupling

end Cadence
