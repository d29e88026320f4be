import Mathlib.Data.Rat.Floor
import ObjectQuery.Predicate.Basic
import ObjectQuery.Proofs.Number.Order
import ObjectQuery.Sorting

/-!
# Integers compare exactly

A found integer is compared with an operand as an integer: a double among the operands loses its
fraction and is held to 128 bits. Both steps are exact as far as they matter. Shifting the
significand is rounding the **value** of a double, a rational number, toward zero
(`Double.truncate_eq`), and what does not fit in 128 bits equals no integer of 64 bits, neither
before it is held to range nor after (`Number.clamp128_eq_iff`).

So a found integer matches an operand if and only if it is the value of the operand, rounded toward
zero in unbounded arithmetic, and it matches an integer if and only if the two are alike when rows
are sorted (`Predicate.test_is_integer`).
-/

namespace ObjectQuery

/-! ### Rounding toward zero -/

/-- A rational number rounded toward zero. -/
def towardZero (q : ℚ) : ℤ :=
  if 0 ≤ q then ⌊q⌋ else ⌈q⌉

theorem towardZero_of_nonneg {q : ℚ} (h : 0 ≤ q) : towardZero q = ⌊q⌋ :=
  if_pos h

theorem towardZero_neg_of_nonneg {q : ℚ} (h : 0 ≤ q) : towardZero (-q) = -⌊q⌋ := by
  rcases h.eq_or_lt with rfl | hpos
  · rfl
  · rw [towardZero, if_neg (not_le.2 (neg_lt_zero.2 hpos)), Int.ceil_neg]

theorem towardZero_intCast (i : ℤ) : towardZero i = i := by
  rw [towardZero, Int.floor_intCast, Int.ceil_intCast, ite_self]

/-! ### The value of a double -/

namespace Double

/-- The magnitude of a double, exactly. -/
def absValue (d : Double) : ℚ :=
  d.significand * 2 ^ d.exponent

/-- The value of a double, exactly. -/
def value (d : Double) : ℚ :=
  if d.negative then -d.absValue else d.absValue

theorem absValue_nonneg (d : Double) : 0 ≤ d.absValue :=
  mul_nonneg (Nat.cast_nonneg _) (zpow_nonneg (by decide) _)

/-- Shifting the significand cuts off the fraction. -/
theorem natCast_wholePart (d : Double) : (d.wholePart : ℤ) = ⌊d.absValue⌋ := by
  rw [wholePart, absValue]
  cases d.exponent with
  | ofNat k =>
    have hcast : (d.significand : ℚ) * 2 ^ Int.ofNat k = ((d.significand * 2 ^ k : ℕ) : ℤ) := by
      push_cast
      rfl
    show ((d.significand <<< k : ℕ) : ℤ) = _
    rw [hcast, Int.floor_intCast, Nat.shiftLeft_eq]
  | negSucc k =>
    -- a shift to the right divides by a power of two and rounds down
    have hcast : (d.significand : ℚ) * 2 ^ Int.negSucc k =
        ((d.significand : ℤ) : ℚ) / ((2 ^ (k + 1) : ℕ) : ℚ) := by
      rw [zpow_negSucc, ← div_eq_mul_inv]
      push_cast
      rfl
    show ((d.significand >>> (k + 1) : ℕ) : ℤ) = _
    rw [hcast, Rat.floor_intCast_div_natCast, Nat.shiftRight_eq_div_pow]
    rfl

/-- **The integer part of a double** is its value rounded toward zero. -/
theorem truncate_eq (d : Double) : d.truncate = towardZero d.value := by
  rw [truncate, withSign, value]
  split
  · rw [towardZero_neg_of_nonneg d.absValue_nonneg, natCast_wholePart]
  · rw [towardZero_of_nonneg d.absValue_nonneg, natCast_wholePart]

end Double

/-! ### Matching an integer -/

namespace Number

/-- The value of a number, exactly. -/
def value : Number → ℚ
  | .integer i => i.val
  | .double d => d.value

/-- Holding to 128 bits neither hides nor makes an integer of 64 bits. -/
theorem clamp128_eq_iff (i : Integer) (t : Int) : i.val = clamp128 t ↔ i.val = t := by
  have hlower := i.lower
  have hupper := i.upper
  simp only [clamp128, Word.minSigned128, Word.maxSigned128, Word.minSigned64,
    Word.maxUnsigned64] at hlower hupper ⊢
  omega

/-- **An integer matches an operand** whose value, rounded toward zero, it is. -/
theorem matchesOperand_integer (i : Integer) (m : Number) :
    (integer i).matchesOperand m = decide (i.val = towardZero m.value) := by
  have hmatch : (integer i).matchesOperand m = decide (i.val = m.toInteger) := rfl
  rw [hmatch, decide_eq_decide]
  cases m with
  | integer j =>
    rw [toInteger, value, towardZero_intCast]
  | double d =>
    rw [toInteger, value, ← Double.truncate_eq]
    exact clamp128_eq_iff i d.truncate

/-- The double nearest to an integer is another integer, and does not match it. -/
example : Double.ofInt (2 ^ 63 - 1) = Double.ofInt (2 ^ 63) ∧
    (ofInt (2 ^ 63 - 1)).matchesOperand (.double (Double.ofInt (2 ^ 63))) = false := by
  decide +kernel

end Number

/-! ### Predicates and the order of rows -/

theorem Direction.apply_eq_eq_iff {direction : Direction} {o : Ordering} :
    direction.apply o = .eq ↔ o = .eq := by
  cases direction <;> cases o <;> decide

/-- **Found integers are compared exactly.** A found integer is one with a number operand if and
only if it is the value of the operand, rounded toward zero; and it is one with an integer if and
only if the two are equal in the order of rows. -/
theorem Predicate.test_is_integer (i : Integer) :
    (∀ m : Number, (is (.number m)).test (.primitive (.number (.integer i))) =
      .ok (decide (i.val = towardZero m.value))) ∧
    ∀ (j : Integer) (direction : Direction) (noneFirst : Bool),
      (is (.number (.integer j))).test (.primitive (.number (.integer i))) = .ok true ↔
        Sorting.compareValues direction noneFirst (.primitive (.number (.integer i)))
          (.primitive (.number (.integer j))) = .eq := by
  have htest : ∀ m : Number, (is (.number m)).test (.primitive (.number (.integer i))) =
      .ok (decide (i.val = towardZero m.value)) := fun m =>
    congrArg Except.ok (Number.matchesOperand_integer i m)
  refine ⟨htest, fun j direction noneFirst => ?_⟩
  have hcompare : Sorting.compareValues direction noneFirst (.primitive (.number (.integer i)))
      (.primitive (.number (.integer j))) =
      direction.apply ((Number.integer i).compare (.integer j)) := rfl
  rw [htest, hcompare, Direction.apply_eq_eq_iff, Number.compare_integer_integer, Int.compare_eq_eq,
    Except.ok.injEq, decide_eq_true_eq, Number.value, towardZero_intCast]

end ObjectQuery
