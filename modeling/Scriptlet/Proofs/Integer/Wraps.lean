import Mathlib.Data.Int.ModEq
import Scriptlet.Proofs.Effects.WellFormed
import Scriptlet.Proofs.Session.Identity

set_option autoImplicit false

/-!
# Integers wrap

Component: the evaluator.  Specification: section 4.3 on the prefix minus and on infix operators
between integers, section 10.5, by which arithmetic wraps in two's complement and a division by zero
is an error, and section 8, by which arithmetic is deterministic.

Sums, differences, products and signs of integers can be worked out as if numbers had no bound, and
be wrapped to 64 bits at the end: wrapping on the way makes no difference (`Wraps`).  So an
expression of them is worth its exact value, wrapped once.

Quotients cannot.  They are those of the wrapped operands, and so are comparisons.

Two numbers are wrapped to the same integer if they differ by a multiple of `2^64`, and each number
is wrapped to one integer only (`Wraps.unique`).  So `Wraps` is the graph of a homomorphism, and
there is one lemma for each operator that it respects.

Division is not one of them: halving the wrapped sum of two large numbers is not halving the sum.
So an expression with a quotient in it has no exact value here (`Expression.exact?`), and what is
said of a quotient is said of the integers that its operands are worth, wherever these come from.
-/

namespace Scriptlet

/-! ## Numbers modulo 2^64 -/

/-- Whether an integer is an exact number wrapped to 64 bits. -/
structure Wraps (n : Int64) (exact : Int) : Prop where
  congruent : n.toInt ≡ exact [ZMOD 2 ^ 64]
  least : -2 ^ 63 ≤ n.toInt
  less : n.toInt < 2 ^ 63

namespace Wraps

variable {m n : Int64} {a b : Int}

/-- All integers have 64 bits. -/
theorem of_congruent (h : n.toInt ≡ a [ZMOD 2 ^ 64]) : Wraps n a :=
  ⟨h, n.le_toInt, n.toInt_lt⟩

/-- Balanced remainders are what wrapping makes. -/
theorem of_bmod (h : n.toInt = a.bmod (2 ^ 64)) : Wraps n a :=
  .of_congruent (h ▸ Int.bmod_emod)

/-- An integer is itself wrapped. -/
theorem self (n : Int64) : Wraps n n.toInt := .of_congruent rfl

/-- There is one way to wrap a number. -/
theorem unique (hm : Wraps m a) (hn : Wraps n a) : m = n := by
  have hsame : m.toInt % 2 ^ 64 = n.toInt % 2 ^ 64 := hm.congruent.trans hn.congruent.symm
  obtain ⟨_, hm, hm'⟩ := hm
  obtain ⟨_, hn, hn'⟩ := hn
  exact Int64.toInt.inj (by omega)

/-- Signs may be changed before or after. -/
theorem neg (h : Wraps n a) : Wraps (-n) (-a) := by
  have hwraps : Wraps (-n) (-n.toInt) := .of_bmod n.toInt_neg
  exact .of_congruent (hwraps.congruent.trans h.congruent.neg)

/-- So may sums be taken. -/
theorem add (hm : Wraps m a) (hn : Wraps n b) : Wraps (m + n) (a + b) := by
  have hwraps : Wraps (m + n) (m.toInt + n.toInt) := .of_bmod (m.toInt_add n)
  exact .of_congruent (hwraps.congruent.trans (hm.congruent.add hn.congruent))

/-- So may differences be taken. -/
theorem sub (hm : Wraps m a) (hn : Wraps n b) : Wraps (m - n) (a - b) := by
  have hwraps : Wraps (m - n) (m.toInt - n.toInt) := .of_bmod (m.toInt_sub n)
  exact .of_congruent (hwraps.congruent.trans (hm.congruent.sub hn.congruent))

/-- So may products be taken. -/
theorem mul (hm : Wraps m a) (hn : Wraps n b) : Wraps (m * n) (a * b) := by
  have hwraps : Wraps (m * n) (m.toInt * n.toInt) := .of_bmod (m.toInt_mul n)
  exact .of_congruent (hwraps.congruent.trans (hm.congruent.mul hn.congruent))

end Wraps

/-! ## Exact values -/

/-- What an infix operator makes of two numbers without a bound, if wrapping makes no difference to
it. -/
def InfixOp.exact? : InfixOp → Option (Int → Int → Int)
  | .add => some (· + ·)
  | .subtract => some (· - ·)
  | .multiply => some (· * ·)
  | .divide | .less | .greater | .equal | .notEqual => none

/-- The exact value of an expression of integers, signs, sums, differences and products. -/
def Expression.exact? : Expression → Option Int
  | .integer _ value => some value.toInt
  | .unary _ .negate right => right.exact?.map (-·)
  | .binary _ left operator right => do
    let combine ← operator.exact?
    let l ← left.exact?
    let r ← right.exact?
    return combine l r
  | _ => none

/-- An operator of this kind does to wrapped numbers what it does to exact ones. -/
theorem applyInteger_of_exact? {operator : InfixOp} {combine : Int → Int → Int} {l r : Int64}
    {a b : Int} (h : operator.exact? = some combine) (hl : Wraps l a) (hr : Wraps r b) :
    ∃ n, applyInteger operator l r = .ok (.integer n) ∧ Wraps n (combine a b) := by
  cases operator with
  | add =>
    cases h
    exact ⟨l + r, rfl, hl.add hr⟩
  | subtract =>
    cases h
    exact ⟨l - r, rfl, hl.sub hr⟩
  | multiply =>
    cases h
    exact ⟨l * r, rfl, hl.mul hr⟩
  | divide | less | greater | equal | notEqual => cases h

/-! ## Evaluation -/

section

variable {setup : Setup} {invoke : Invoke} {frame : FrameId} {roots : Roots}
  {machine middle last : Machine}

/-- A prefix operator is applied to what its operand is worth. -/
theorem evalExpression_unary_of_ok (token : Token) {operator : PrefixOp} {right : Expression}
    {value : Value}
    (h : evalExpression setup invoke frame roots right machine = .ok value middle) :
    evalExpression setup invoke frame roots (.unary token operator right) machine =
      Eval.ofExcept (applyPrefix operator value) middle := by
  rw [evalExpression, Eval.bind_of_ok h]

/-- An infix operator is applied to what its operands are worth, the left one first. -/
theorem evalExpression_binary_of_ok (token : Token) (operator : InfixOp) {left right : Expression}
    {first second : Value}
    (hleft : evalExpression setup invoke frame roots left machine = .ok first middle)
    (hright : evalExpression setup invoke frame (roots.hold first) right middle =
      .ok second last) :
    evalExpression setup invoke frame roots (.binary token left operator right) machine =
      Eval.ofExcept (applyInfix operator first second) last := by
  rw [evalExpression, Eval.bind_of_ok hleft, Eval.bind_of_ok hright]

/-- An expression with an exact value is worth that, wrapped, and changes nothing. -/
theorem evalExpression_of_exact? (tree : Expression) {exact : Int}
    (h : tree.exact? = some exact) : ∃ n, Wraps n exact ∧ ∀ roots machine,
      evalExpression setup invoke frame roots tree machine = .ok (.integer n) machine := by
  fun_induction Expression.exact? tree generalizing exact with
  | case1 token value =>
    cases h
    exact ⟨value, .self value, fun _ _ => by rw [evalExpression]; rfl⟩
  | case2 token right ih =>
    obtain ⟨inner, hinner, rfl⟩ := Option.map_eq_some_iff.mp h
    obtain ⟨n, hwraps, heval⟩ := ih hinner
    refine ⟨-n, hwraps.neg, fun roots machine => ?_⟩
    rw [evalExpression_unary_of_ok token (heval roots machine)]
    rfl
  | case3 token left operator right ihl ihr =>
    obtain ⟨combine, hcombine, h⟩ := Option.bind_eq_some_iff.mp h
    obtain ⟨a, ha, h⟩ := Option.bind_eq_some_iff.mp h
    obtain ⟨b, hb, hexact⟩ := Option.bind_eq_some_iff.mp h
    cases hexact
    obtain ⟨l, hl, hleft⟩ := ihl ha
    obtain ⟨r, hr, hright⟩ := ihr hb
    obtain ⟨n, happly, hwraps⟩ := applyInteger_of_exact? hcombine hl hr
    refine ⟨n, hwraps, fun roots machine => ?_⟩
    rw [evalExpression_binary_of_ok token operator (hleft roots machine) (hright _ machine)]
    exact congrArg (fun result => Eval.ofExcept result machine) happly
  | case4 => cases h

end

/-! ## Quotients and comparisons -/

/-- Quotients are truncated.  The only one that does not have 64 bits is wrapped. -/
theorem toInt_div_eq_ite (l r : Int64) :
    (l / r).toInt =
      if l.toInt = -2 ^ 63 ∧ r.toInt = -1 then -2 ^ 63 else l.toInt.tdiv r.toInt := by
  split
  next h =>
    rw [Int64.toInt_div, h.1, h.2]
    rfl
  next h =>
    by_cases hl : l = Int64.minValue
    · have hr : r ≠ -1 := fun heq => h ⟨congrArg Int64.toInt hl, congrArg Int64.toInt heq⟩
      exact Int64.toInt_div_of_ne_right l r hr
    · exact Int64.toInt_div_of_ne_left l r hl

/-- What comes of two integers by the operators that wrapping makes a difference to. -/
structure Relates (result : InfixOp → EStateM.Result Halt Machine Value) (l r : Int64)
    (last : Machine) : Prop where
  fails : (∃ fault after, result .divide = .error (.fault fault) after ∧
    fault.message = "division by zero: INTEGER / INTEGER") ↔ r = 0
  /-- quotients are truncated toward zero, and the only one with too many bits is wrapped -/
  quotient : r ≠ 0 → ∃ q, result .divide = .ok (.integer q) last ∧
    q.toInt = if l.toInt = -2 ^ 63 ∧ r.toInt = -1 then -2 ^ 63 else l.toInt.tdiv r.toInt
  less : result .less = .ok (.boolean (decide (l.toInt < r.toInt))) last
  greater : result .greater = .ok (.boolean (decide (r.toInt < l.toInt))) last
  equal : result .equal = .ok (.boolean (decide (l.toInt = r.toInt))) last
  notEqual : result .notEqual = .ok (.boolean (decide (l.toInt ≠ r.toInt))) last

/-- Of two integers the operators make what is said of them. -/
theorem relates_applyInfix (l r : Int64) (last : Machine) :
    Relates (fun operator =>
      (Eval.ofExcept (applyInfix operator (.integer l) (.integer r)) : Eval Value) last) l r
      last where
  fails := by
    simp only [applyInfix, applyInteger]
    split
    next hr => exact ⟨fun _ => hr, fun _ => ⟨.divisionByZero, last, rfl, rfl⟩⟩
    next hr =>
      refine ⟨fun ⟨_, _, hfault, _⟩ => ?_, fun h => absurd h hr⟩
      cases hfault
  quotient := fun hr => by
    refine ⟨l / r, ?_, toInt_div_eq_ite l r⟩
    simp only [applyInfix, applyInteger, if_neg hr]
    rfl
  less := by
    rw [← decide_eq_decide.mpr Int64.lt_iff_toInt_lt]
    rfl
  greater := by
    rw [← decide_eq_decide.mpr Int64.lt_iff_toInt_lt]
    rfl
  equal := by
    rw [decide_eq_decide.mpr Int64.toInt_inj, ← beq_eq_decide]
    rfl
  notEqual := by
    rw [decide_eq_decide.mpr (not_congr Int64.toInt_inj), decide_not, ← beq_eq_decide]
    rfl

/-- Two expressions that are worth such integers are related as their values are. -/
theorem relates_binary {setup : Setup} {invoke : Invoke} {frame : FrameId} {roots : Roots}
    {machine middle last : Machine} (token : Token) {left right : Expression} {l r : Int64}
    (hleft : evalExpression setup invoke frame roots left machine = .ok (.integer l) middle)
    (hright : evalExpression setup invoke frame (roots.hold (.integer l)) right middle =
      .ok (.integer r) last) :
    Relates (fun operator => evalExpression setup invoke frame roots
      (.binary token left operator right) machine) l r last := by
  simp only [evalExpression_binary_of_ok token _ hleft hright]
  exact relates_applyInfix l r last

/-- Integer expressions compute modulo 2^64.

An expression of integer literals, signs, sums, differences and products is worth its exact value,
wrapped once, however often it leaves the 64 bits on the way; it changes nothing.  Of operands that
are worth two integers, whatever they are, division fails if the second is zero, and is truncated
if it is not, and comparisons are those of signed numbers.  If the operands have exact values, these
integers are their wrapped values. -/
theorem integers_wrap (setup : Setup) (invoke : Invoke) (frame : FrameId) :
    (∀ (tree : Expression) (exact : Int), tree.exact? = some exact → ∃ n, Wraps n exact ∧
      ∀ roots machine, evalExpression setup invoke frame roots tree machine =
        .ok (.integer n) machine) ∧
    (∀ (roots : Roots) (token : Token) (left right : Expression) (l r : Int64)
      (machine middle last : Machine),
      evalExpression setup invoke frame roots left machine = .ok (.integer l) middle →
      evalExpression setup invoke frame (roots.hold (.integer l)) right middle =
        .ok (.integer r) last →
      Relates (fun operator => evalExpression setup invoke frame roots
        (.binary token left operator right) machine) l r last) ∧
    ∀ (roots : Roots) (token : Token) (left right : Expression) (a b : Int) (machine : Machine),
      left.exact? = some a → right.exact? = some b → ∃ l r, Wraps l a ∧ Wraps r b ∧
        Relates (fun operator => evalExpression setup invoke frame roots
          (.binary token left operator right) machine) l r machine := by
  refine ⟨fun tree exact h => evalExpression_of_exact? tree h,
    fun roots token left right l r machine middle last hleft hright =>
      relates_binary token hleft hright, ?_⟩
  intro roots token left right a b machine ha hb
  obtain ⟨l, hl, hleft⟩ := evalExpression_of_exact? left ha
  obtain ⟨r, hr, hright⟩ := evalExpression_of_exact? right hb
  exact ⟨l, r, hl, hr, relates_binary token (hleft roots machine) (hright _ machine)⟩

/-- The expression `9223372036854775807 + 1`. -/
def overLargest : Expression :=
  .binary default (.integer default 9223372036854775807) .add (.integer default 1)

/-- The expression `-1`. -/
def minusOne : Expression := .unary default .negate (.integer default 1)

/-- The least integer is what comes of the largest and one, and the quotient of that and minus one
is that again. -/
theorem integers_wrap_overLargest :
    let eval := fun tree => evalExpression bareSetup (invokeWithin bareSetup 1) ⟨0⟩ ⟨[], []⟩ tree
      default
    (∃ n, Wraps n 9223372036854775808 ∧ eval overLargest = .ok (.integer n) default) ∧
    Relates (fun operator => eval (.binary default overLargest operator minusOne))
      (-9223372036854775808) (-1) default ∧
    ∃ l r, Wraps l 9223372036854775808 ∧ Wraps r (-1) ∧
      Relates (fun operator => eval (.binary default overLargest operator minusOne)) l r
        default := by
  obtain ⟨hwraps, hrelates, hexact⟩ :=
    integers_wrap bareSetup (invokeWithin bareSetup 1) ⟨0⟩
  obtain ⟨n, hn, heval⟩ := hwraps overLargest 9223372036854775808 rfl
  refine ⟨⟨n, hn, heval _ _⟩, ?_, ?_⟩
  · exact hrelates ⟨[], []⟩ default overLargest minusOne _ _ default default default rfl rfl
  · exact hexact ⟨[], []⟩ default overLargest minusOne _ _ default rfl rfl

end Scriptlet
