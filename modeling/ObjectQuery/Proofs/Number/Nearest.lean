import Mathlib.Tactic.SplitIfs
import ObjectQuery.Number.Nearest

/-!
# Rounding keeps the order of integers

The double nearest to an integer grows with the integer: in the total order of doubles
the greater integer is never placed in front of the lesser one (`Double.place_ofInt_mono`).
It need not be placed behind it, for integers that lie closer together than the doubles
around them share a double.

The code of the nearest double is the binade of the integer in front of the number of
steps that it lies from zero, measured in the distance of doubles of that binade. Within
one binade the steps grow; from one binade to the next they may fall back, but by no more
than the carry that the exponent gains, since they always lie between one binade of steps
and two (`Double.binade_le_steps`, `Double.steps_le`).
-/

namespace ObjectQuery.Double

/-! ### Rounding a quotient -/

theorem div_le_divNearestEven (num den : Nat) : num / den ≤ divNearestEven num den := by
  rw [divNearestEven]
  split
  · exact Nat.le_refl _
  · split <;> omega

theorem divNearestEven_le (num den : Nat) : divNearestEven num den ≤ num / den + 1 := by
  rw [divNearestEven]
  split
  · omega
  · split <;> omega

/-- A greater number never has the lesser rounded quotient. -/
theorem divNearestEven_mono {m n : Nat} (den : Nat) (h : m ≤ n) :
    divNearestEven m den ≤ divNearestEven n den := by
  have hquot : m / den ≤ n / den := Nat.div_le_div_right h
  rcases Nat.lt_or_eq_of_le hquot with hlt | heq
  · have hm := divNearestEven_le m den
    have hn := div_le_divNearestEven n den
    omega
  · -- between the same two multiples the remainders decide
    have hrem : m % den ≤ n % den := by
      have hm := Nat.div_add_mod m den
      have hn := Nat.div_add_mod n den
      rw [heq] at hm
      omega
    simp only [divNearestEven, heq]
    split_ifs <;> omega

theorem divNearestEven_one (n : Nat) : divNearestEven n 1 = n := by
  simp [divNearestEven, Nat.mod_one]

/-! ### Binades and steps -/

/-- How many steps a whole number lies from zero, rounded, a step being the distance of
neighbouring doubles of its binade. -/
def steps (n : Nat) : Nat :=
  if 52 ≤ n.log2 then divNearestEven n (1 <<< (n.log2 - 52)) else n <<< (52 - n.log2)

theorem ratioLog2_one {n : Nat} (h : n ≠ 0) : ratioLog2 n 1 = n.log2 := by
  have hone : Nat.log2 1 = 0 := by decide
  have hlog : ((n.log2 : Int) - (Nat.log2 1 : Nat)) = Int.ofNat n.log2 := by simp [hone]
  have hreached : 1 <<< n.log2 ≤ n := by
    rw [Nat.one_shiftLeft]
    exact Nat.log2_self_le h
  simp only [ratioLog2, hlog, hreached, decide_true, if_true]
  rfl

/-- The code of the double nearest to a whole number: its binade and its steps. -/
theorem nearestCode_one {n : Nat} (h : n ≠ 0) :
    nearestCode n 1 = (n.log2 + 1022) * binade + steps n := by
  have hunit : max (-1074) (ratioLog2 n 1 - 52) = (n.log2 : Int) - 52 := by
    rw [ratioLog2_one h]
    omega
  rw [nearestCode, if_neg h]
  simp only [hunit]
  by_cases hlog : 52 ≤ n.log2
  · have hcast : (n.log2 : Int) - 52 = Int.ofNat (n.log2 - 52) := by
      rw [Int.ofNat_eq_natCast]
      omega
    have hcode : ((n.log2 : Int) - 52 + 1074).toNat = n.log2 + 1022 := by omega
    rw [hcode, steps, if_pos hlog, hcast]
  · have hcast : (n.log2 : Int) - 52 = Int.negSucc (51 - n.log2) := by
      rw [Int.negSucc_eq]
      omega
    have hcode : ((n.log2 : Int) - 52 + 1074).toNat = n.log2 + 1022 := by omega
    have hshift : 51 - n.log2 + 1 = 52 - n.log2 := by omega
    rw [hcode, steps, if_neg hlog, hcast]
    simp only [hshift, divNearestEven_one]

theorem binade_le_steps {n : Nat} (h : n ≠ 0) : binade ≤ steps n := by
  have hlow := Nat.log2_self_le h
  have hbinade : binade = 2 ^ 52 := by decide
  rw [steps, hbinade, Nat.one_shiftLeft, Nat.shiftLeft_eq]
  split
  · next hlog =>
    refine Nat.le_trans ?_ (div_le_divNearestEven _ _)
    rw [Nat.le_div_iff_mul_le (Nat.two_pow_pos _), ← Nat.pow_add]
    rwa [Nat.add_sub_cancel' hlog]
  · next hlog =>
    calc 2 ^ 52 = 2 ^ n.log2 * 2 ^ (52 - n.log2) := by
          rw [← Nat.pow_add, Nat.add_sub_cancel' (by omega)]
      _ ≤ n * 2 ^ (52 - n.log2) := Nat.mul_le_mul_right _ hlow

theorem steps_le (n : Nat) : steps n ≤ 2 * binade := by
  have hhigh : n < 2 ^ (n.log2 + 1) := Nat.lt_log2_self
  have htwo : 2 * binade = 2 ^ 53 := by decide
  rw [steps, htwo, Nat.one_shiftLeft, Nat.shiftLeft_eq]
  split
  · next hlog =>
    refine Nat.le_trans (divNearestEven_le _ _) (Nat.succ_le_of_lt ?_)
    rw [Nat.div_lt_iff_lt_mul (Nat.two_pow_pos _), ← Nat.pow_add]
    have hexp : 53 + (n.log2 - 52) = n.log2 + 1 := by omega
    rwa [hexp]
  · next hlog =>
    calc n * 2 ^ (52 - n.log2) ≤ 2 ^ (n.log2 + 1) * 2 ^ (52 - n.log2) :=
          Nat.mul_le_mul_right _ (Nat.le_of_lt hhigh)
      _ = 2 ^ 53 := by
          rw [← Nat.pow_add]
          congr 1
          omega

/-- Within one binade the steps grow with the number. -/
theorem steps_mono {m n : Nat} (hlog : m.log2 = n.log2) (h : m ≤ n) : steps m ≤ steps n := by
  rw [steps, steps, hlog, Nat.shiftLeft_eq m, Nat.shiftLeft_eq n]
  split
  · exact divNearestEven_mono _ h
  · exact Nat.mul_le_mul_right _ h

/-! ### The nearest double grows -/

theorem nearestCode_mono {m n : Nat} (h : m ≤ n) : nearestCode m 1 ≤ nearestCode n 1 := by
  by_cases hm : m = 0
  · simp [nearestCode, hm]
  · have hn : n ≠ 0 := by omega
    rw [nearestCode_one hm, nearestCode_one hn]
    have hlog : m.log2 ≤ n.log2 := (Nat.le_log2 hn).2 (Nat.le_trans (Nat.log2_self_le hm) h)
    rcases Nat.lt_or_eq_of_le hlog with hlt | heq
    · -- the next binade starts where the steps of this one end
      have hcarry : (m.log2 + 1022 + 1) * binade ≤ (n.log2 + 1022) * binade :=
        Nat.mul_le_mul_right _ (by omega)
      have hsteps := steps_le m
      have hsteps' := binade_le_steps hn
      rw [Nat.add_mul _ 1, Nat.one_mul] at hcarry
      omega
    · have hsteps := steps_mono heq h
      rw [heq]
      omega

/-- The double nearest to a negative integer is placed in front of zero. -/
theorem place_ofInt_neg {i : Int} (h : i < 0) : (ofInt i).place < 0 := by
  simp only [place, ofInt, decide_eq_true_eq, if_pos h]
  omega

theorem place_ofInt_nonneg {i : Int} (h : 0 ≤ i) : 0 ≤ (ofInt i).place := by
  simp only [place, ofInt, decide_eq_true_eq, if_neg (Int.not_lt.2 h)]
  omega

/-- **The nearest double grows with the integer.** -/
theorem place_ofInt_mono {i j : Int} (h : i ≤ j) : (ofInt i).place ≤ (ofInt j).place := by
  rcases Int.lt_or_le i 0 with hi | hi
  · rcases Int.lt_or_le j 0 with hj | hj
    · -- among negative integers the lesser one is the one farther from zero
      have hcode : nearestCode j.natAbs 1 ≤ nearestCode i.natAbs 1 := nearestCode_mono (by omega)
      simp only [place, ofInt, decide_eq_true_eq, if_pos hi, if_pos hj]
      omega
    · have hneg := place_ofInt_neg hi
      have hnonneg := place_ofInt_nonneg hj
      omega
  · have hj : ¬j < 0 := by omega
    have hcode : nearestCode i.natAbs 1 ≤ nearestCode j.natAbs 1 := nearestCode_mono (by omega)
    simp only [place, ofInt, decide_eq_true_eq, if_neg (Int.not_lt.2 hi), if_neg hj]
    omega

end ObjectQuery.Double
