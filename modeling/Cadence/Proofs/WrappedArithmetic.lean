/-
  Arithmetic modulo 2^64.

  The wrapped form of a number is the one 64-bit integer that is congruent to it (`wrap_eq_iff`). So
  a computation may be wrapped as often as one likes, or once at its end.

  Two things follow. The remainder is formed from a quotient that has been wrapped already, and is
  the exact remainder all the same (`division_truncates`). And a tree of sums, differences, products
  and negations, each of which is wrapped, has the wrapped form of its exact value
  (`evaluate_wraps_once`).
-/
import Cadence.Proofs.Expressions
import Mathlib.Data.Int.ModEq

namespace Cadence

open Reference

namespace Integer

/-! ## Wrapping -/

theorem wrap_eq_iff {n m : Int} : wrap n = m ↔ InRange m ∧ m ≡ n [ZMOD modulus] := by
  rw [inRange_iff]
  unfold wrap Int.ModEq maxInt modulus
  dsimp only
  split <;> omega

theorem wrap_modEq (n : Int) : wrap n ≡ n [ZMOD modulus] := (wrap_eq_iff.1 rfl).2

theorem wrap_of_inRange {n : Int} (h : InRange n) : wrap n = n := wrap_eq_iff.2 ⟨h, .rfl⟩

theorem wrap_congr {n m : Int} (h : n ≡ m [ZMOD modulus]) : wrap n = wrap m :=
  wrap_eq_iff.2 ⟨wrap_inRange m, (wrap_modEq m).trans h.symm⟩

/-! ## Division -/

/-- A quotient and a remainder with the quotient cut off toward zero: the remainder is smaller than
    the divisor, and is zero or has the sign of the dividend. -/
structure Truncates (a b q r : Int) : Prop where
  sum : q * b + r = a
  small : r.natAbs < b.natAbs
  sign : r = 0 ∨ r.sign = a.sign

variable {a b : Int}

theorem truncates_tdiv (nonzero : b ≠ 0) : Truncates a b (a.tdiv b) (a.tmod b) where
  sum := Int.tdiv_mul_add_tmod a b
  small := by
    rw [Int.natAbs_tmod]
    exact Nat.mod_lt _ (Int.natAbs_pos.2 nonzero)
  sign := by
    rw [Int.sign_tmod]
    by_cases divides : b ∣ a
    · exact .inl (Int.tmod_eq_zero_of_dvd divides)
    · exact .inr (if_neg divides)

/-- Only the quotient of the least integer and -1 is no 64-bit integer. -/
theorem tdiv_inRange (ha : InRange a) (inside : ¬ (a = -0x8000000000000000 ∧ b = -1)) :
    InRange (a.tdiv b) := by
  rw [inRange_iff] at ha ⊢
  obtain rfl | rfl | rfl | large : b = 0 ∨ b = 1 ∨ b = -1 ∨ 2 ≤ b.natAbs := by omega
  · rw [Int.tdiv_zero]
    omega
  · rw [Int.tdiv_one]
    exact ha
  · rw [Int.tdiv_neg, Int.tdiv_one]
    omega
  · have halved : (a.tdiv b).natAbs ≤ a.natAbs / 2 := by
      rw [Int.natAbs_tdiv]
      exact Nat.div_le_div_left large (by decide)
    omega

theorem tmod_inRange (ha : InRange a) : InRange (a.tmod b) := by
  rw [inRange_iff] at ha ⊢
  have magnitude : (a.tmod b).natAbs ≤ a.natAbs := by
    rw [Int.natAbs_tmod]
    exact Nat.mod_le _ _
  by_cases least : a = -0x8000000000000000
  · have sign := Int.tmod_nonneg b (a := -a) (by omega)
    rw [Int.neg_tmod] at sign
    omega
  · omega

theorem div_eq (nonzero : b ≠ 0) (ha : InRange a)
    (inside : ¬ (a = -0x8000000000000000 ∧ b = -1)) : div a b = .ok (a.tdiv b) := by
  rw [div, if_neg nonzero, wrap_of_inRange (tdiv_inRange ha inside)]

/-- The wrapped quotient leaves the exact remainder. -/
theorem mod_eq (nonzero : b ≠ 0) (ha : InRange a) : mod a b = .ok (a.tmod b) := by
  have remainder : a - b * wrap (a.tdiv b) ≡ a.tmod b [ZMOD modulus] := by
    rw [Int.tmod_def]
    exact ((wrap_modEq _).mul_left b).sub_left a
  rw [mod, if_neg nonzero, wrap_congr remainder, wrap_of_inRange (tmod_inRange ha)]

/-- Quotient and remainder give the dividend again, where sum and product are wrapped. -/
theorem wrap_recombined (q : Int) (ha : InRange a) :
    wrap (wrap (q * b) + wrap (a - b * q)) = a := by
  rw [Int.mul_comm b q]
  have sum : wrap (q * b) + wrap (a - q * b) ≡ q * b + (a - q * b) [ZMOD modulus] :=
    (wrap_modEq _).add (wrap_modEq _)
  rw [add_sub_cancel] at sum
  rw [wrap_congr sum, wrap_of_inRange ha]

end Integer

namespace Operator

open Integer

/-- The dividend put together again from quotient and remainder, with the operators themselves. -/
def recombined (a b : Value) : Except Failure Value := do
  let quotient ← binary (.text "/") a b
  let product ← binary (.text "*") quotient b
  let remainder ← binary (.text "%") a b
  binary (.text "+") product remainder

theorem recombined_ints {a b : Int} (nonzero : b ≠ 0) (ha : InRange a) :
    recombined (.int a) (.int b) = .ok (.int a) := by
  have quotient : binary (.text "/") (.int a) (.int b) = .ok (.int (wrap (a.tdiv b))) := by
    show (Integer.div a b).map Value.int = _
    rw [Integer.div, if_neg nonzero]
    rfl
  have remainder : binary (.text "%") (.int a) (.int b) =
      .ok (.int (wrap (a - b * wrap (a.tdiv b)))) := by
    show (Integer.mod a b).map Value.int = _
    rw [Integer.mod, if_neg nonzero]
    rfl
  rw [recombined, quotient, remainder]
  exact congrArg (fun n => Except.ok (Value.int n)) (wrap_recombined _ ha)

/-- Division of 64-bit integers cuts the quotient off toward zero. Only for the least integer and
    -1 it gives the least integer, since the exact quotient is no 64-bit integer. The remainder is
    always the exact one, and the dividend can be put together again from the two. No integer can be
    divided by zero, and every integer of whatever size by every other one. -/
theorem division_truncates (a b : Int) :
    (InRange a → InRange b → b ≠ 0 → ∃ q r,
      binary (.text "/") (.int a) (.int b) = .ok (.int q) ∧
      binary (.text "%") (.int a) (.int b) = .ok (.int r) ∧ InRange q ∧ InRange r ∧
      q = (if a = -0x8000000000000000 ∧ b = -1 then -0x8000000000000000 else a.tdiv b) ∧
      r = a.tmod b ∧ Truncates a b (a.tdiv b) (a.tmod b) ∧
      recombined (.int a) (.int b) = .ok (.int a)) ∧
    ∀ op ∈ ["/", "%"],
      (b = 0 → ∃ f : Fault, binary (.text op) (.int a) (.int b) = .error (.fault f) ∧
        f.kind = .invalidOperation) ∧
      (b ≠ 0 → ∃ n, binary (.text op) (.int a) (.int b) = .ok (.int n)) := by
  have quotient : binary (.text "/") (.int a) (.int b) = (Integer.div a b).map .int := rfl
  have remainder : binary (.text "%") (.int a) (.int b) = (Integer.mod a b).map .int := rfl
  refine ⟨fun ha _ nonzero => ?_, List.forall_mem_cons.2 ⟨?_, List.forall_mem_singleton.2 ?_⟩⟩
  · have truncates := truncates_tdiv (a := a) nonzero
    have again := recombined_ints nonzero ha
    rw [mod_eq nonzero ha] at remainder
    by_cases least : a = -0x8000000000000000 ∧ b = -1
    · obtain ⟨rfl, rfl⟩ := least
      exact ⟨_, _, quotient, remainder, by decide, tmod_inRange ha, rfl, rfl, truncates, again⟩
    · rw [div_eq nonzero ha least] at quotient
      exact ⟨_, _, quotient, remainder, tdiv_inRange ha least, tmod_inRange ha,
        (if_neg least).symm, rfl, truncates, again⟩
  · rw [quotient, Integer.div]
    exact ⟨fun zero => ⟨_, by rw [if_pos zero]; rfl, rfl⟩,
      fun nonzero => ⟨_, by rw [if_neg nonzero]; rfl⟩⟩
  · rw [remainder, Integer.mod]
    exact ⟨fun zero => ⟨_, by rw [if_pos zero]; rfl, rfl⟩,
      fun nonzero => ⟨_, by rw [if_neg nonzero]; rfl⟩⟩

/-- The quotient that is out of range. -/
theorem division_truncates_least : ∃ q r,
    binary (.text "/") (.int (-0x8000000000000000)) (.int (-1)) = .ok (.int q) ∧
    binary (.text "%") (.int (-0x8000000000000000)) (.int (-1)) = .ok (.int r) ∧
    q = -0x8000000000000000 ∧ r = 0 ∧
    recombined (.int (-0x8000000000000000)) (.int (-1)) = .ok (.int (-0x8000000000000000)) := by
  obtain ⟨q, r, quotient, remainder, -, -, hq, hr, -, again⟩ :=
    (division_truncates (-0x8000000000000000) (-1)).1 (by decide) (by decide) (by decide)
  exact ⟨q, r, quotient, remainder, hq, hr, again⟩

end Operator

/-! ## Trees of operations -/

namespace Node

/-- The exact value of a tree of sums, differences, products and negations over whole numbers. These
    are written out, or they are what names stand for. -/
inductive Totals (env : Environment) : Node → Int → Prop
  | literal (n : Int) : Totals env (.literal (.plain (.int n)) (.text "int")) n
  | name {j : Json} {x : Name} {n : Int} (named : Operator.nameOf j = .ok x)
      (held : resolve env x = .ok (.int n)) : Totals env (.ident j) n
  | add {left right : Node} {x y : Int} (first : Totals env left x) (second : Totals env right y) :
      Totals env (.binaryOp (.text "+") left right) (x + y)
  | sub {left right : Node} {x y : Int} (first : Totals env left x) (second : Totals env right y) :
      Totals env (.binaryOp (.text "-") left right) (x - y)
  | mul {left right : Node} {x y : Int} (first : Totals env left x) (second : Totals env right y) :
      Totals env (.binaryOp (.text "*") left right) (x * y)
  | negate {operand : Node} {x : Int} (inner : Totals env operand x) :
      Totals env (.unaryOp (.text "-") operand) (-x)

def isOperation : Node → Bool
  | .binaryOp .. | .unaryOp .. => true
  | _ => false

/-- How many operations are nested in one another. -/
def operationDepth : Node → Nat
  | .binaryOp _ left right => max left.operationDepth right.operationDepth + 1
  | .unaryOp _ operand => operand.operationDepth + 1
  | _ => 0

end Node

namespace Context

/-- The expression has an integer as its value, without any effect, unless its operations are nested
    too deep. -/
structure Computes (ctx : Context) (env : Environment) (node : Node) (n : Int) : Prop where
  admitted {level fuel : Nat} (enough : sizeOf node ≤ fuel)
    (fits : ¬ ctx.Bars (level + node.operationDepth)) :
    (ctx.evaluate fuel level node env).Finds env (.ok (.int n))
  barred {level fuel : Nat} (enough : sizeOf node ≤ fuel)
    (deep : ctx.Bars (level + node.operationDepth)) :
    (ctx.evaluate fuel level node env).Finds env (.error (.fault .nesting))

theorem bars_max {ctx : Context} {l l' : Nat} :
    ctx.Bars (max l l') ↔ ctx.Bars l ∨ ctx.Bars l' := by
  constructor
  · rintro ⟨limit, eq, le⟩
    rcases Nat.le_total l l' with h | h
    · exact .inr ⟨limit, eq, Nat.max_eq_right h ▸ le⟩
    · exact .inl ⟨limit, eq, Nat.max_eq_left h ▸ le⟩
  · rintro (deep | deep)
    · exact deep.deeper (Nat.le_max_left l l')
    · exact deep.deeper (Nat.le_max_right l l')

namespace Computes

variable {ctx : Context} {env : Environment} {node left right operand : Node} {a b n : Int}
  {op : Json}

/-- Both cases follow from the rule for the node, at a level that can be entered. -/
theorem of_rule
    (admitted : ∀ level fuel, (∀ p ∈ node.parts, sizeOf p ≤ fuel) →
      ¬ ctx.Bars (level + node.operationDepth) →
      (Machine.evaluateNode ctx (ctx.machine fuel (level + 1)) node env).Finds env (.ok (.int n)))
    (barred : ∀ level fuel, (∀ p ∈ node.parts, sizeOf p ≤ fuel) → ¬ ctx.Bars level →
      ctx.Bars (level + node.operationDepth) →
      (Machine.evaluateNode ctx (ctx.machine fuel (level + 1)) node env).Finds env
        (.error (.fault .nesting))) : ctx.Computes env node n := by
  have inside {fuel : Nat} (enough : sizeOf node ≤ fuel) :
      ∃ k, fuel = k + 1 ∧ ∀ p ∈ node.parts, sizeOf p ≤ k := by
    have pos := node.sizeOf_pos
    refine ⟨fuel - 1, by omega, fun p hp => ?_⟩
    have := Node.sizeOf_parts hp
    omega
  constructor
  · intro level fuel enough fits
    obtain ⟨fuel, rfl, parts⟩ := inside enough
    refine evaluate_gives (fun deep => ?_) fun _ => admitted level fuel parts fits
    exact absurd (deep.deeper (Nat.le_add_right _ _)) fits
  · intro level fuel enough deep
    obtain ⟨fuel, rfl, parts⟩ := inside enough
    exact evaluate_gives (fun _ => rfl) fun entered => barred level fuel parts entered deep

theorem leaf (depth : node.operationDepth = 0)
    (rule : ∀ m, (Machine.evaluateNode ctx m node env).Finds env (.ok (.int n))) :
    ctx.Computes env node n := by
  refine of_rule (fun _ _ _ _ => rule _) fun level _ _ entered deep => ?_
  rw [depth] at deep
  exact absurd deep entered

theorem unaryOp (inner : ctx.Computes env operand a)
    (applied : Operator.unary op (.int a) = .ok (.int n)) :
    ctx.Computes env (.unaryOp op operand) n := by
  have within (level : Nat) : level + (Node.unaryOp op operand).operationDepth =
      level + 1 + operand.operationDepth := by
    rw [Node.operationDepth]
    omega
  refine of_rule (fun level fuel enough fits => ?_) fun level fuel enough _ deep => ?_
  · rw [within] at fits
    refine Act.Gives.andThen (inner.admitted (enough _ List.mem_cons_self) fits) ?_
    dsimp only
    rw [applied]
    exact Act.lift_finds (.ok (Value.int n))
  · rw [within] at deep
    exact Act.Gives.stops (inner.barred (enough _ List.mem_cons_self) deep)

theorem binaryOp (first : ctx.Computes env left a) (second : ctx.Computes env right b)
    (applied : Operator.binary op (.int a) (.int b) = .ok (.int n)) :
    ctx.Computes env (.binaryOp op left right) n := by
  have within (level : Nat) : ctx.Bars (level + (Node.binaryOp op left right).operationDepth) ↔
      ctx.Bars (level + 1 + left.operationDepth) ∨ ctx.Bars (level + 1 + right.operationDepth) := by
    rw [← bars_max, Node.operationDepth, Nat.add_max_add_left, Nat.add_assoc, Nat.add_comm 1]
  have sizes {fuel : Nat} (enough : ∀ p ∈ [left, right], sizeOf p ≤ fuel) :
      sizeOf left ≤ fuel ∧ sizeOf right ≤ fuel :=
    ⟨enough left List.mem_cons_self, enough right (List.mem_cons_of_mem _ List.mem_cons_self)⟩
  refine of_rule (fun level fuel enough fits => ?_) fun level fuel enough _ deep => ?_
  · rw [within, not_or] at fits
    refine Act.Gives.andThen (first.admitted (sizes enough).1 fits.1) ?_
    refine Act.Gives.andThen (second.admitted (sizes enough).2 fits.2) ?_
    dsimp only
    rw [applied]
    exact Act.lift_finds (.ok (Value.int n))
  · -- the operand on the left is evaluated first, and may be admitted
    by_cases deepLeft : ctx.Bars (level + 1 + left.operationDepth)
    · exact Act.Gives.stops (first.barred (sizes enough).1 deepLeft)
    · have deepRight := ((within level).1 deep).resolve_left deepLeft
      refine Act.Gives.andThen (first.admitted (sizes enough).1 deepLeft) ?_
      exact Act.Gives.stops (second.barred (sizes enough).2 deepRight)

end Computes

end Context

/-- Wrapped at every operation, the value of a tree stays congruent to its exact value. -/
theorem Node.Totals.computes (ctx : Context) {env : Environment} {node : Node} {z : Int}
    (totals : node.Totals env z) :
    ∃ n, ctx.Computes env node n ∧ n ≡ z [ZMOD Integer.modulus] ∧
      (node.isOperation = false ∨ Integer.InRange n) := by
  have wrapped {a n : Int} (congruent : a ≡ n [ZMOD Integer.modulus]) :
      Integer.wrap a ≡ n [ZMOD Integer.modulus] := (Integer.wrap_modEq a).trans congruent
  induction totals with
  | literal n => exact ⟨n, .leaf rfl fun _ => Act.lift_finds _, .rfl, .inl rfl⟩
  | @name j x n named held =>
      have found : (Act.lift (Operator.nameOf j)).Gives (.ok x) := named ▸ Act.lift_gives _
      refine ⟨n, .leaf rfl fun m => found.andThen ?_, .rfl, .inl rfl⟩
      rw [held]
      exact Act.lift_finds (.ok (Value.int n))
  | add _ _ first second =>
      obtain ⟨a, computes, congruent, -⟩ := first
      obtain ⟨b, computes', congruent', -⟩ := second
      exact ⟨_, computes.binaryOp computes' rfl, wrapped (congruent.add congruent'),
        .inr (Integer.wrap_inRange _)⟩
  | sub _ _ first second =>
      obtain ⟨a, computes, congruent, -⟩ := first
      obtain ⟨b, computes', congruent', -⟩ := second
      exact ⟨_, computes.binaryOp computes' rfl, wrapped (congruent.sub congruent'),
        .inr (Integer.wrap_inRange _)⟩
  | mul _ _ first second =>
      obtain ⟨a, computes, congruent, -⟩ := first
      obtain ⟨b, computes', congruent', -⟩ := second
      exact ⟨_, computes.binaryOp computes' rfl, wrapped (congruent.mul congruent'),
        .inr (Integer.wrap_inRange _)⟩
  | negate _ inner =>
      obtain ⟨a, computes, congruent, -⟩ := inner
      exact ⟨_, computes.unaryOp rfl, wrapped congruent.neg, .inr (Integer.wrap_inRange _)⟩

/-- A tree of sums, differences, products and negations over whole numbers of any size, with an
    operation at its root, is evaluated to its exact value modulo 2^64: to the one 64-bit integer
    that is congruent to it. Evaluating it changes nothing. Only if the operations are nested
    deeper than nodes may be, that is reported instead. -/
theorem evaluate_wraps_once (ctx : Context) {env : Environment} {node : Node} {z : Int}
    (totals : node.Totals env z) (operation : node.isOperation = true) {level fuel : Nat}
    (enough : sizeOf node ≤ fuel) :
    (¬ ctx.Bars (level + node.operationDepth) →
      (ctx.evaluate fuel level node env).Finds env (.ok (.int (Integer.wrap z)))) ∧
    (ctx.Bars (level + node.operationDepth) →
      (ctx.evaluate fuel level node env).Finds env (.error (.fault .nesting))) ∧
    ∀ n, n = Integer.wrap z ↔
      (-0x8000000000000000 ≤ n ∧ n ≤ 0x7fffffffffffffff) ∧ n ≡ z [ZMOD 0x10000000000000000] := by
  obtain ⟨n, computes, congruent, range⟩ := totals.computes ctx
  rw [operation] at range
  have once : Integer.wrap z = n :=
    Integer.wrap_eq_iff.2 ⟨range.resolve_left Bool.noConfusion, congruent⟩
  rw [once]
  refine ⟨computes.admitted enough, computes.barred enough, fun m => ?_⟩
  rw [← once, eq_comm, Integer.wrap_eq_iff, Integer.inRange_iff]
  rfl

/-- Neither what the name stands for nor one of the numbers is a 64-bit integer. -/
theorem evaluate_wraps_once_large :
    let env : Environment := {
      locals := [(.text "a", .array #[.int 0x8000000000000000]), (.text "x", .ref (.text "a") 0)]
      globals := [] }
    let ctx : Context := { debugLevel := 0, maxDepth := 10, nesting := some 9, functions := [] }
    let number (n : Int) : Node := .literal (.plain (.int n)) (.text "int")
    let node := Node.binaryOp (.text "+")
      (.binaryOp (.text "*") (.ident (.text "x")) (number 0x10000000000000003))
      (.unaryOp (.text "-") (number 5))
    (ctx.evaluate (sizeOf node) 0 node env).Finds env (.ok (.int 0x7ffffffffffffffb)) := by
  intro env ctx number node
  have chain : Leads env (.text "x") (.text "a") [(.text "a", 0)] := .ref rfl (.root rfl rfl)
  have held : resolve env (.text "x") = .ok (.int 0x8000000000000000) := chain.resolve_eq rfl
  have totals : node.Totals env (0x8000000000000000 * 0x10000000000000003 + -5) :=
    .add (.mul (.name rfl held) (.literal _)) (.negate (.literal 5))
  refine (evaluate_wraps_once ctx totals rfl (Nat.le_refl _)).1 ?_
  rintro ⟨limit, ⟨⟩, deep⟩
  exact absurd deep (by decide)

end Cadence
