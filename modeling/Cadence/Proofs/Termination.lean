/-
  Runs that end.

  The fuel of a run bounds how deep nodes and calls are nested, and the rounds of each loop with a
  condition. A run that ends with some fuel ends in the same way with more (`Session.run_of_le`). If
  a program has no loop with a condition, its calls are bounded by the limit on their depth and each
  of them by the size of the program, so there is a fuel that is always enough
  (`run_loopless_ends`). What loops over arrays do to the arrays does not matter: how often each of
  them goes round is settled before its first round.
-/
import Cadence.Proofs.Frames
import Cadence.Proofs.PairedRuns

namespace Cadence

/-! ## More fuel -/

namespace Coupling

variable {ι : Type} {I : Invariant ι} {cut : Prop}

/-- The two sides are in the same studio. -/
def same (cut : Prop) : Coupling := ⟨Eq, cut⟩

theorem same_even : (same cut).Even where
  track := by rintro s _ rfl; rfl
  random := by rintro s _ rfl; rfl
  noted := by rintro e s _ rfl; rfl
  depth := by rintro d s _ rfl; rfl
  printed := by rintro line s _ rfl; rfl
  drawn := by rintro random s _ rfl; rfl
  mixed := by rintro track f s _ rfl; rfl

theorem same_kept (ctx : Context) : (same cut).Kept I ctx ctx where
  functions _ _ := rfl
  maxDepth := rfl
  nesting := rfl
  even := same_even
  debugged := by rintro level text s _ - rfl; rfl
  written differ := absurd rfl differ

theorem same_launched (options : Options) : (same cut).Launched I options options where
  functions := by rintro s _ rfl; rfl
  declared := by rintro functions s _ rfl; rfl
  kept _ := same_kept _

/-- Of two runs that end in the same studio, one is the other. -/
theorem RunsEnd.eq_of_same {options : Options} {p q : Ending Value × Session}
    (h : (same cut).RunsEnd options options p q) (ended : p.1 ≠ .unfinished) : q = p := by
  cases h with
  | done v h => rw [show _ = _ from h.studios]
  | failed e h => rw [show _ = _ from h.studios]
  | cut => exact absurd rfl ended

end Coupling

/-- More fuel does not change a run that has ended. -/
theorem Session.run_of_le {session : Session} {program : Node} {fuel fuel' : Nat}
    (le : fuel ≤ fuel') (ended : (session.run fuel program).1 ≠ .unfinished) :
    session.run fuel' program = session.run fuel program := by
  by_cases ok : session.options.Accepted
  · have ends := (Coupling.same_launched session.options).run_ends_of_cut program
      (fun decls functions _ => Invariant.anything_launched _ decls functions) trivial le ok ok
      trivial rfl
    exact ends.eq_of_same ended
  · rw [run_of_not_accepted ok, run_of_not_accepted ok]

/-! ## Trees without loops that have a condition -/

namespace Node

/-- No loop in the tree goes on as long as a condition holds. -/
def Loopless (n : Node) : Prop := ∀ m, n.Contains m → m.openEnded = false

namespace Loopless

theorem parts {n p : Node} (h : n.Loopless) (hp : p ∈ n.parts) : p.Loopless :=
  fun m inside => h m (inside.of_part hp)

theorem of_parts {n : Node} (h : n.openEnded = false) (parts : ∀ p ∈ n.parts, p.Loopless) :
    n.Loopless :=
  Contains.forall_of_parts h parts

end Loopless

theorem sizeOf_pos (n : Node) : 0 < sizeOf n := by
  cases n <;> grind

theorem sizeOf_parts {n p : Node} (h : p ∈ n.parts) : sizeOf p < sizeOf n := by
  have listed {l : List Node} (hp : p ∈ l) : sizeOf p < sizeOf l := List.sizeOf_lt_of_mem hp
  cases n with
  | absent | varDecl | funcParam | literal | ident => exact nomatch h
  | program | funcDecl =>
      simp only [parts, List.mem_append] at h
      grind
  | block | arrayLit | call | index =>
      simp only [parts] at h
      grind
  | _ =>
      simp only [parts, List.mem_cons, List.not_mem_nil, or_false] at h
      grind

theorem sizeOf_expressions {n p : Node} (h : p ∈ n.expressions) : sizeOf p < sizeOf n := by
  rcases mem_expressions h with h | ⟨q, hq, h⟩
  · exact sizeOf_parts h
  · exact Nat.lt_trans (sizeOf_parts h) (sizeOf_parts hq)

end Node

/-- In a run of a tree without such loops: the functions are no larger than the tree. -/
def looplessLayer (bound : Nat) : Layer where
  env _ := True
  globals _ := True
  node := Node.Loopless
  function f := f.Loopless ∧ sizeOf f ≤ bound

namespace looplessLayer

variable {bound : Nat} {ctx : Context}

theorem kept : (looplessLayer bound).Kept .anything where
  parts _ h _ hp := h.parts hp
  body _ _ _ _ h _ hst := h.1.parts (List.mem_append_right _ hst)
  globals _ _ := trivial
  withGlobals _ _ _ _ := trivial
  assignName _ _ _ _ _ _ _ _ _ _ _ _ _ _ _ _ := trivial
  assignIndex _ _ _ _ _ _ _ _ _ _ _ _ _ _ _ _ _ _ _ _ := trivial
  bindElement _ _ _ _ _ _ _ _ _ _ _ _ _ _ _ _ _ _ := trivial
  activate _ _ _ _ _ _ _ _ _ _ _ _ := trivial

/-- Nothing has to be said of the two sides, which are one. -/
abbrev invariant (bound : Nat) : Invariant Unit := (looplessLayer bound).atop .anything

/-- Each call leaves room for one less. -/
theorem bodies_finish (ctx : Context) (fuel level : Nat) (d : Int)
    (table : ∀ entry ∈ ctx.functions, (looplessLayer bound).function entry.2)
    (enough : (ctx.maxDepth - d).toNat * bound ≤ fuel)
    (finishes : ∀ i node, sizeOf node + (ctx.maxDepth - (d + 1)).toNat * bound ≤ fuel →
      (invariant bound).stmt i node →
      (Coupling.same False).OnStatement (invariant bound) (ctx.machine fuel level)
        (ctx.machine fuel level) (d + 1) i node) :
    (Coupling.same False).OnBodies (invariant bound) ctx (ctx.machine fuel level)
      (ctx.machine fuel level) d := by
  intro below name f params decls body found i st hst known
  obtain ⟨entry, member, eq⟩ := typed.mem_of_get? found
  have function := table entry member
  rw [eq] at function
  have small : sizeOf st < sizeOf (Node.funcDecl f params decls body) :=
    Node.sizeOf_parts (List.mem_append_right _ hst)
  have one : (ctx.maxDepth - d).toNat = (ctx.maxDepth - (d + 1)).toNat + 1 := by omega
  rw [one, Nat.succ_mul] at enough
  have := function.2
  exact finishes i st (by omega) known

/-- A machine finishes with a node if its fuel is enough for the node and for the calls that may
    still be made. -/
theorem machine_finishes
    (table : ∀ entry ∈ ctx.functions, (looplessLayer bound).function entry.2) (fuel : Nat) :
    ∀ (level : Nat) (d : Int) (i : Unit) (node : Node),
      sizeOf node + (ctx.maxDepth - d).toNat * bound ≤ fuel →
      ((invariant bound).expr i node → (Coupling.same False).OnExpression (invariant bound)
        (ctx.machine fuel level) (ctx.machine fuel level) d i node) ∧
      ((invariant bound).stmt i node → (Coupling.same False).OnStatement (invariant bound)
        (ctx.machine fuel level) (ctx.machine fuel level) d i node) := by
  have hI : (invariant bound).Kept ctx :=
    Layer.atop_kept kept (Invariant.anything_kept ctx) table
  have hC : (Coupling.same False).Kept (invariant bound) ctx ctx := Coupling.same_kept ctx
  induction fuel with
  | zero =>
      intro level d i node enough
      have := node.sizeOf_pos
      omega
  | succ fuel ih =>
      intro level d i node enough
      have pos := node.sizeOf_pos
      have bodies := bodies_finish ctx fuel (level + 1) d table (by omega) fun i n h =>
        (ih (level + 1) (d + 1) i n h).2
      have inside {p : Node} (small : sizeOf p < sizeOf node) := ih (level + 1) d i p (by omega)
      have onPart (hn : (invariant bound).expr i node ∨ (invariant bound).stmt i node) (p : Node)
          (hp : p ∈ node.expressions) :=
        (inside (Node.sizeOf_expressions hp)).1 (hI.expressions i node hn p hp)
      refine ⟨fun hn => hC.evaluate_agrees hI bodies (onPart (.inl hn)) hn, fun hn =>
        hC.execute_agrees hI ⟨onPart (.inr hn), fun p hp => ?_, fun loop => ?_⟩ hn⟩
      · exact (inside (Node.sizeOf_parts (Node.mem_statements hp))).2
          (hI.statements i node hn p hp)
      · have bounded : node.openEnded = false := hn.2 node .self
        rw [bounded] at loop
        cases loop

theorem launched {options : Options} {decls functions : List Node}
    (loopless : (Node.program decls functions).Loopless) :
    (invariant (sizeOf (Node.program decls functions))).Launched options decls functions := by
  refine Layer.atop_launched kept (Invariant.anything_launched options decls functions) ?_
    fun _ _ => trivial
  intro f hf
  have part : f ∈ (Node.program decls functions).parts := List.mem_append_right _ hf
  exact ⟨loopless.parts part, Nat.le_of_lt (Node.sizeOf_parts part)⟩

end looplessLayer

/-! ## Runs -/

/-- The limit on calls times the size of the tree is fuel enough. -/
theorem Node.Loopless.run_finishes {program : Node} (loopless : program.Loopless)
    (session : Session) {fuel : Nat}
    (enough : session.options.maxDepth.toNat * sizeOf program ≤ fuel) :
    (session.run fuel program).1 ≠ .unfinished := by
  by_cases ok : session.options.Accepted
  · have launched (decls functions : List Node) (eq : program = .program decls functions) :
        (looplessLayer.invariant (sizeOf program)).Launched session.options decls functions := by
      subst eq
      exact looplessLayer.launched loopless
    have bodies (s : Studio) (hs : (looplessLayer.invariant (sizeOf program)).studio s) :=
      looplessLayer.bodies_finish (Session.context session.options s.functions) fuel 0 0
        hs.2.functions (by simpa [Session.context] using enough)
        fun i n h => (looplessLayer.machine_finishes hs.2.functions fuel 0 _ i n h).2
    have ends := (Coupling.same_launched session.options).run_ends program launched
      (fun s hs _ => bodies s hs) ok ok ⟨trivial, Layer.Holds.cleared _⟩ rfl
    exact ends.ne_unfinished id
  · rw [Session.run_of_not_accepted ok]
    exact nofun

/-- A tree without loops that have a condition is run to an end, whatever the session, the state it
    is in and its limit on calls. With any fuel from the product of that limit and the size of the
    tree on, the run ends in one and the same way, and is not cut short. -/
theorem run_loopless_ends (session : Session) {program : Node} (loopless : program.Loopless) :
    ∃ ending after, ending ≠ .unfinished ∧
      ∀ fuel, session.options.maxDepth.toNat * sizeOf program ≤ fuel →
        session.run fuel program = (ending, after) :=
  have ended := loopless.run_finishes session (Nat.le_refl _)
  ⟨_, _, ended, fun _ le => Session.run_of_le le ended⟩

/-- Two functions call each other, one of them for each element of an array that grows meanwhile. -/
theorem run_loopless_ends_mutual : ∃ session program,
    session = Session.new { maxDepth := 7 } ∧
    program = Node.program [.varDecl (.text "int[]") (.text "a")]
      [.funcDecl (.text "grow") [] [.varDecl (.text "int") (.text "x")]
         [.loopStmt (.text "x") (.text "a") (.block
           [.exprStmt (.assign
              (.index (.text "a") [.call (.text "length") [.ident (.text "a")]])
              (.ident (.text "x"))),
            .exprStmt (.call (.text "main") [])])],
       .funcDecl (.text "main") [] [] [.exprStmt (.call (.text "grow") [])]] ∧
    program.Loopless ∧ ((session.run 40 program).1 matches .failed (.fault (.callDepth ..))) ∧
    ∃ ending after, ending ≠ .unfinished ∧
      ∀ fuel, session.options.maxDepth.toNat * sizeOf program ≤ fuel →
        session.run fuel program = (ending, after) := by
  refine ⟨_, _, rfl, rfl, ?loopless, by decide +kernel, run_loopless_ends _ ?loopless⟩
  repeat' first
    | exact List.forall_mem_nil _
    | refine List.forall_mem_cons.2 ⟨?_, ?_⟩
    | refine .of_parts rfl ?_

end Cadence
