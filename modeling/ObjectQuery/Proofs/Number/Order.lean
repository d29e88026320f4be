import ObjectQuery.Number.Basic
import ObjectQuery.Proofs.Number.Nearest

/-!
# The order of numbers

Integers compare exactly, whatever words they fit in (`Number.compare_integer_integer`),
and as soon as one of two numbers is a double they compare by the places of their nearest
doubles. Either rule alone orders the numbers it is about. Together they do not: a double
that is the nearest one to two different integers compares equal to both, and it
**blurs** them, for they are still unequal to each other.

`Number.isLE_trans_or_blurs` says that this is the only thing that can go wrong. The key
is that rounding never turns the order of two integers round
(`Double.place_ofInt_mono`), so that an order that fails to carry over from two pairs to
the third can only do so where three places coincide.
-/

namespace ObjectQuery

namespace Integer

theorem isSigned_iff {i : Integer} : i.isSigned = true ↔ i.val ≤ Word.maxSigned64 :=
  decide_eq_true_iff

theorem isUnsigned_iff {i : Integer} : i.isUnsigned = true ↔ 0 ≤ i.val :=
  decide_eq_true_iff

theorem ext_val {i j : Integer} (h : i.val = j.val) : i = j := by
  obtain ⟨i, _, _⟩ := i
  obtain ⟨j, _, _⟩ := j
  cases h
  rfl

end Integer

namespace Number

/-! ### How two numbers compare -/

/-- The place of the double nearest to a number. -/
def place (n : Number) : Int :=
  n.toDouble.place

/-- **Integers compare exactly**, also where no word holds both. -/
theorem compare_integer_integer (i j : Integer) :
    (integer i).compare (integer j) = Ord.compare i.val j.val := by
  rw [compare]
  split
  · rfl
  · next hsigned =>
    split
    · rfl
    · next hunsigned =>
      -- one of them is negative and the other past the signed words: the sign decides
      rw [Bool.and_eq_true, Integer.isSigned_iff, Integer.isSigned_iff] at hsigned
      rw [Bool.and_eq_true, Integer.isUnsigned_iff, Integer.isUnsigned_iff] at hunsigned
      have hsides : (i.val < 0 ∧ 0 ≤ j.val) ∨ (j.val < 0 ∧ 0 ≤ i.val) := by
        simp only [Word.maxSigned64] at hsigned
        omega
      rw [Double.totalCompare]
      rcases hsides with ⟨hneg, hnat⟩ | ⟨hneg, hnat⟩
      · have hplace := Int.lt_of_lt_of_le (Double.place_ofInt_neg hneg)
          (Double.place_ofInt_nonneg hnat)
        rw [Int.compare_eq_lt.2 hplace, Int.compare_eq_lt.2 (by omega)]
      · have hplace := Int.lt_of_lt_of_le (Double.place_ofInt_neg hneg)
          (Double.place_ofInt_nonneg hnat)
        rw [Int.compare_eq_gt.2 hplace, Int.compare_eq_gt.2 (by omega)]

theorem compare_double_left (d : Double) (n : Number) :
    (double d).compare n = Ord.compare (double d).place n.place := rfl

theorem compare_double_right (n : Number) (d : Double) :
    n.compare (double d) = Ord.compare n.place (double d).place := by
  cases n <;> rfl

/-- Turning a comparison of numbers round swaps its outcome. -/
theorem compare_swap (a b : Number) : a.compare b = (b.compare a).swap := by
  cases a with
  | double d => rw [compare_double_left, compare_double_right, Int.compare_swap]
  | integer i =>
    cases b with
    | double d => rw [compare_double_left, compare_double_right, Int.compare_swap]
    | integer j => rw [compare_integer_integer, compare_integer_integer, Int.compare_swap]

/-- What is not greater is not placed behind. -/
theorem place_le_of_isLE {a b : Number} (h : (a.compare b).isLE = true) : a.place ≤ b.place := by
  cases a with
  | double d => exact Int.isLE_compare.1 h
  | integer i =>
    cases b with
    | double d => exact Int.isLE_compare.1 (compare_double_right _ _ ▸ h)
    | integer j =>
      rw [compare_integer_integer] at h
      exact Double.place_ofInt_mono (Int.isLE_compare.1 h)

/-! ### Blurred integers -/

/-- The number in the middle is a double, and it is the nearest one to two different
integers. -/
inductive Blurs : Number → Number → Number → Prop
  | nearest {i j : Integer} {d : Double} (hne : i ≠ j) (hi : Double.ofInt i.val = d)
      (hj : Double.ofInt j.val = d) : Blurs (.integer i) (.double d) (.integer j)

theorem Blurs.symm {a b c : Number} (h : Blurs a b c) : Blurs c b a := by
  cases h with
  | nearest hne hi hj => exact .nearest hne.symm hj hi

theorem Blurs.exists_double {a b c : Number} (h : Blurs a b c) : ∃ d, b = .double d := by
  cases h with
  | nearest _ _ _ => exact ⟨_, rfl⟩

/-- **The order of numbers carries over** from two pairs to the third, unless a double
blurs two integers. -/
theorem isLE_trans_or_blurs {a b c : Number} (hab : (a.compare b).isLE = true)
    (hbc : (b.compare c).isLE = true) : (a.compare c).isLE = true ∨ Blurs a b c := by
  have hplaceab := place_le_of_isLE hab
  have hplacebc := place_le_of_isLE hbc
  have hplaceac := Int.le_trans hplaceab hplacebc
  cases a with
  | double d => exact .inl (Int.isLE_compare.2 hplaceac)
  | integer i =>
    cases c with
    | double d => exact .inl (compare_double_right _ _ ▸ Int.isLE_compare.2 hplaceac)
    | integer j =>
      cases b with
      | integer k =>
        rw [compare_integer_integer] at hab hbc ⊢
        exact .inl (Int.isLE_compare.2
          (Int.le_trans (Int.isLE_compare.1 hab) (Int.isLE_compare.1 hbc)))
      | double d =>
        rw [compare_integer_integer]
        rcases Int.lt_or_le j.val i.val with hlt | hle
        · -- all three places coincide, since the greater integer has no lesser one
          have hplaceca := Double.place_ofInt_mono (Int.le_of_lt hlt)
          change (Double.ofInt i.val).place ≤ d.place at hplaceab
          change d.place ≤ (Double.ofInt j.val).place at hplacebc
          refine .inr (.nearest (fun heq => ?_) (Double.place_injective (by omega))
            (Double.place_injective (by omega)))
          rw [heq] at hlt
          exact Int.lt_irrefl _ hlt
        · exact .inl (Int.isLE_compare.2 hle)

/-- A double that blurs two integers compares equal to both, and they do not. -/
theorem Blurs.compare_eq {a b c : Number} (h : Blurs a b c) :
    a.compare b = .eq ∧ b.compare c = .eq ∧ a.compare c ≠ .eq := by
  cases h with
  | nearest hne hi hj =>
    refine ⟨?_, ?_, fun heq => hne (Integer.ext_val ?_)⟩
    · rw [compare_double_right, Int.compare_eq_eq]
      exact congrArg Double.place hi
    · rw [compare_double_left, Int.compare_eq_eq]
      exact congrArg Double.place hj.symm
    · rwa [compare_integer_integer, Int.compare_eq_eq] at heq

end Number

end ObjectQuery
