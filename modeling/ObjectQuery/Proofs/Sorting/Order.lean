import ObjectQuery.Proofs.Number.Order
import ObjectQuery.Sorting

/-!
# The order of found values

Two found values compare by a chain of readings, the first of which that tells them
apart decides: on which side of the others the none family stands, the tier of the value
(booleans, numbers, strings, and behind them objects and lists), its truth value, its
string, and at last its number (`Sorting.compareValues_eq`, `Sorting.compareSome_eq`). A
value that has no reading of a kind gets the same one as all others without, so that the
readings of the wrong kind never decide.

All readings but the last are orders. So comparing values has the one defect that
comparing numbers has, and `Sorting.compareValues_isLE_trans_or_blurs` says where: three
values whose order does not carry over are two different integers and a double that is
nearest to both. This is stated for all values in
`Sorting.compareValues_preorder_unless_blurs`.
-/

namespace ObjectQuery

/-- An outcome is known by whether it, and the swapped one, is at most equal. -/
theorem Ordering.eq_of_isLE_eq {o o' : Ordering} (h : o.isLE = o'.isLE)
    (hswap : o.swap.isLE = o'.swap.isLE) : o = o' := by
  revert h hswap
  cases o <;> cases o' <;> decide

/-- A chain of comparisons carries over where its links do; what may keep the second link
from it only matters when the first does not decide. -/
theorem Ordering.isLE_then_trans_or {α : Type} {cmp : α → α → Ordering} [Std.TransCmp cmp]
    {a b c : α} {o₁ o₂ o₃ : Ordering} {Q : Prop} (h₁ : ((cmp a b).then o₁).isLE = true)
    (h₂ : ((cmp b c).then o₂).isLE = true)
    (h : cmp a b = .eq → cmp b c = .eq → o₁.isLE = true → o₂.isLE = true →
      o₃.isLE = true ∨ Q) :
    ((cmp a c).then o₃).isLE = true ∨ Q := by
  rcases hab : cmp a b with _ | _ | _
  · rw [hab] at h₁
    have hbc : (cmp b c).isLE = true := by
      rcases hbc : cmp b c with _ | _ | _
      · rfl
      · rfl
      · rw [hbc] at h₂
        exact h₂
    rw [Std.TransCmp.lt_of_lt_of_isLE hab hbc]
    exact .inl rfl
  · rcases hbc : cmp b c with _ | _ | _
    · rw [Std.TransCmp.lt_of_eq_of_lt hab hbc]
      exact .inl rfl
    · rw [Std.TransCmp.eq_trans hab hbc]
      rw [hab] at h₁
      rw [hbc] at h₂
      exact h hab hbc h₁ h₂
    · rw [hbc] at h₂
      cases h₂
  · rw [hab] at h₁
    cases h₁

namespace Found

/-! ### Readings of a value -/

/-- Primitives by their rank, and objects and lists behind them. -/
def tier : Found → Nat
  | .primitive p => p.rank
  | _ => 3

/-- The truth value; a value that is none counts as false. -/
def boolean : Found → Bool
  | .primitive (.boolean b) => b
  | _ => false

/-- The string; a value that is none counts as the empty one. -/
def string : Found → String
  | .primitive (.string s) => s
  | _ => ""

/-- The number; a value that is none counts as zero. -/
def number : Found → Number
  | .primitive (.number n) => n
  | _ => .integer ⟨0, by decide, by decide⟩

theorem eq_number_of_tier {f : Found} (h : f.tier = 1) : f = .primitive (.number f.number) := by
  cases f with
  | primitive p =>
    cases p with
    | number n => rfl
    | boolean b => cases h
    | string s => cases h
  | noValue => cases h
  | notFound reason => cases h
  | complex fields => cases h
  | list elements => cases h

/-- A value that is no number does not count as a double. -/
theorem tier_of_number {f : Found} (h : ∃ d, f.number = .double d) : f.tier = 1 := by
  obtain ⟨d, hd⟩ := h
  cases f with
  | primitive p =>
    cases p with
    | number n => rfl
    | boolean b => cases hd
    | string s => cases hd
  | noValue => cases hd
  | notFound reason => cases hd
  | complex fields => cases hd
  | list elements => cases hd

/-- The value in the middle is a double that is the nearest one to two different
integers. -/
inductive Blurs : Found → Found → Found → Prop
  | number {l m n : Number} (h : Number.Blurs l m n) :
    Blurs (.primitive (.number l)) (.primitive (.number m)) (.primitive (.number n))

theorem Blurs.symm {a b c : Found} (h : Blurs a b c) : Blurs c b a := by
  cases h with
  | number h => exact .number h.symm

/-- Values of one tier are blurred if their numbers are. -/
theorem blurs_of_number {a b c : Found} (hab : a.tier = b.tier) (hbc : b.tier = c.tier)
    (h : Number.Blurs a.number b.number c.number) : Blurs a b c := by
  have hb : b.tier = 1 := tier_of_number h.exists_double
  have hc : c.tier = 1 := hbc.symm.trans hb
  rw [eq_number_of_tier (hab.trans hb), eq_number_of_tier hb, eq_number_of_tier hc]
  exact .number h

end Found

namespace Sorting

/-! ### Values that are there -/

/-- Values that are there compare by their tiers, truth values, strings and numbers. -/
theorem compareSome_eq (a b : Found) :
    compareSome a b = (compare a.tier b.tier).then ((compare a.boolean b.boolean).then
      ((compare a.string b.string).then (a.number.compare b.number))) := by
  have hzero : ∀ i, (Number.integer i).compare (.integer i) = .eq := fun i => by
    rw [Number.compare_integer_integer, Int.compare_eq_eq]
  rcases a with _ | _ | (_ | _ | _) | _ | _ <;> rcases b with _ | _ | (_ | _ | _) | _ | _ <;>
    simp [compareSome, Primitive.compare, Primitive.rank, Found.tier, Found.boolean,
      Found.string, Found.number, Nat.compare_eq_ite_lt, hzero]

theorem compareSome_swap (a b : Found) : compareSome a b = (compareSome b a).swap := by
  simp only [compareSome_eq, Ordering.swap_then]
  rw [← Std.OrientedOrd.eq_swap, ← Std.OrientedOrd.eq_swap, ← Std.OrientedOrd.eq_swap,
    ← Number.compare_swap]

theorem compareSome_isLE_trans_or_blurs {a b c : Found} (hab : (compareSome a b).isLE = true)
    (hbc : (compareSome b c).isLE = true) :
    (compareSome a c).isLE = true ∨ Found.Blurs a b c := by
  rw [compareSome_eq] at hab hbc ⊢
  refine Ordering.isLE_then_trans_or hab hbc fun htier htier' hab hbc => ?_
  refine Ordering.isLE_then_trans_or hab hbc fun _ _ hab hbc => ?_
  refine Ordering.isLE_then_trans_or hab hbc fun _ _ hab hbc => ?_
  refine (Number.isLE_trans_or_blurs hab hbc).imp_right fun hblurs => ?_
  exact Found.blurs_of_number (Nat.compare_eq_eq.1 htier) (Nat.compare_eq_eq.1 htier') hblurs

/-! ### All values -/

/-- On which side of the others a value stands for being of the none family, or not. -/
def side (noneFirst : Bool) (f : Found) : Nat :=
  if f.isNone = noneFirst then 0 else 1

theorem compareSome_of_isNone {a b : Found} (ha : a.isNone = true) (hb : b.isNone = true) :
    compareSome a b = .eq := by
  cases a <;> cases ha <;> cases b <;> cases hb <;> rfl

/-- Values compare by their side, whatever the direction, and then in its sense. -/
theorem compareValues_eq (direction : Direction) (noneFirst : Bool) (a b : Found) :
    compareValues direction noneFirst a b =
      (compare (side noneFirst a) (side noneFirst b)).then
        (direction.apply (compareSome a b)) := by
  rw [compareValues]
  cases ha : a.isNone <;> cases hb : b.isNone
  · simp [side, ha, hb]
  · cases noneFirst <;> simp [side, ha, hb] <;> rfl
  · cases noneFirst <;> simp [side, ha, hb] <;> rfl
  · rw [compareSome_of_isNone ha hb]
    cases direction <;> simp [side, ha, hb, Direction.apply]

section Laws

variable (direction : Direction) (noneFirst : Bool) {a b c : Found}

/-- Turning a comparison round swaps its outcome. -/
theorem compareValues_swap (a b : Found) :
    compareValues direction noneFirst a b = (compareValues direction noneFirst b a).swap := by
  rw [compareValues_eq, compareValues_eq, Ordering.swap_then, ← Std.OrientedOrd.eq_swap]
  cases direction with
  | ascending => rw [Direction.apply, Direction.apply, ← compareSome_swap]
  | descending =>
    rw [Direction.apply, Direction.apply, Ordering.swap_swap, ← compareSome_swap]

/-- **The order of values carries over** from two pairs to the third, unless a double
blurs two integers. -/
theorem compareValues_isLE_trans_or_blurs
    (hab : (compareValues direction noneFirst a b).isLE = true)
    (hbc : (compareValues direction noneFirst b c).isLE = true) :
    (compareValues direction noneFirst a c).isLE = true ∨ Found.Blurs a b c := by
  rw [compareValues_eq] at hab hbc ⊢
  refine Ordering.isLE_then_trans_or hab hbc fun _ _ hab hbc => ?_
  cases direction with
  | ascending => exact compareSome_isLE_trans_or_blurs hab hbc
  | descending =>
    -- the values are gone through backwards
    rw [Direction.apply, ← compareSome_swap] at hab hbc ⊢
    exact (compareSome_isLE_trans_or_blurs hbc hab).imp_right Found.Blurs.symm

/-- A double that blurs two integers compares equal to both, and they do not. -/
theorem compareValues_of_blurs (h : Found.Blurs a b c) :
    compareValues direction noneFirst a b = .eq ∧ compareValues direction noneFirst b c = .eq ∧
      compareValues direction noneFirst a c ≠ .eq := by
  cases h with
  | @number l m n h =>
    have hnumbers : ∀ x y : Number, compareValues direction noneFirst (.primitive (.number x))
        (.primitive (.number y)) = direction.apply (x.compare y) := fun _ _ => rfl
    obtain ⟨hlm, hmn, hln⟩ := h.compare_eq
    rw [hnumbers, hnumbers, hnumbers, hlm, hmn]
    cases direction with
    | ascending => exact ⟨rfl, rfl, hln⟩
    | descending =>
      refine ⟨rfl, rfl, fun heq => hln ?_⟩
      rw [← Ordering.swap_swap (o := l.compare n)]
      exact congrArg Ordering.swap heq

/-- Values that compare equal compare alike to every third, unless a double blurs two
integers. -/
theorem compareValues_congr_or_blurs (h : compareValues direction noneFirst a b = .eq) :
    compareValues direction noneFirst a c = compareValues direction noneFirst b c ∨
      Found.Blurs a b c ∨ Found.Blurs b a c := by
  by_cases hblurs : Found.Blurs a b c ∨ Found.Blurs b a c
  · exact .inr hblurs
  · rw [not_or] at hblurs
    -- values that compare equal are below each other, so that order carries over in both directions
    have hab : (compareValues direction noneFirst a b).isLE = true := by
      rw [h]
      rfl
    have hba : (compareValues direction noneFirst b a).isLE = true := by
      rw [compareValues_swap, h]
      rfl
    have hle : (compareValues direction noneFirst a c).isLE =
        (compareValues direction noneFirst b c).isLE := by
      rw [Bool.eq_iff_iff]
      constructor
      · intro hac
        exact (compareValues_isLE_trans_or_blurs direction noneFirst hba hac).resolve_right
          hblurs.2
      · intro hbc
        exact (compareValues_isLE_trans_or_blurs direction noneFirst hab hbc).resolve_right
          hblurs.1
    have hge : (compareValues direction noneFirst c a).isLE =
        (compareValues direction noneFirst c b).isLE := by
      rw [Bool.eq_iff_iff]
      constructor
      · intro hca
        exact (compareValues_isLE_trans_or_blurs direction noneFirst hca hab).resolve_right
          fun hb => hblurs.2 hb.symm
      · intro hcb
        exact (compareValues_isLE_trans_or_blurs direction noneFirst hcb hba).resolve_right
          fun hb => hblurs.1 hb.symm
    rw [compareValues_swap direction noneFirst c a, compareValues_swap direction noneFirst c b]
      at hge
    exact .inl (Ordering.eq_of_isLE_eq hle hge)

/-- **Comparing values is a total preorder but for blurred integers.** Turning a
comparison round always swaps its outcome; the order carries over from two pairs to the
third, and equal values compare alike to every other, unless a double among the three is
the nearest one to two different integers; and where it is, the two integers compare
equal to it and not to each other. -/
theorem compareValues_preorder_unless_blurs (direction : Direction) (noneFirst : Bool)
    (a b c : Found) :
    compareValues direction noneFirst a b = (compareValues direction noneFirst b a).swap ∧
      (compareValues direction noneFirst a b ≠ .gt → compareValues direction noneFirst b c ≠ .gt →
        compareValues direction noneFirst a c ≠ .gt ∨ Found.Blurs a b c) ∧
      (compareValues direction noneFirst a b = .eq →
        compareValues direction noneFirst a c = compareValues direction noneFirst b c ∨
          Found.Blurs a b c ∨ Found.Blurs b a c) ∧
      (Found.Blurs a b c → compareValues direction noneFirst a b = .eq ∧
        compareValues direction noneFirst b c = .eq ∧
          compareValues direction noneFirst a c ≠ .eq) := by
  refine ⟨compareValues_swap direction noneFirst a b, fun hab hbc => ?_,
    compareValues_congr_or_blurs direction noneFirst,
    compareValues_of_blurs direction noneFirst⟩
  have hab := Ordering.isLE_iff_ne_gt.2 hab
  have hbc := Ordering.isLE_iff_ne_gt.2 hbc
  exact (compareValues_isLE_trans_or_blurs direction noneFirst hab hbc).imp_left
    Ordering.isLE_iff_ne_gt.1

end Laws

/-- Doubles are two apart from 2 ^ 53 on, so that the one there is nearest to two
integers: it compares equal to both, and the greater of them is still greater. -/
theorem compareValues_not_trans_at_two_pow :
    compareValues .ascending true
        (.primitive (.number (.integer ⟨9007199254740993, by decide, by decide⟩)))
        (.primitive (.number (.double (Double.ofInt 9007199254740992)))) = .eq ∧
      compareValues .ascending true
        (.primitive (.number (.double (Double.ofInt 9007199254740992))))
        (.primitive (.number (.integer ⟨9007199254740992, by decide, by decide⟩))) = .eq ∧
      compareValues .ascending true
        (.primitive (.number (.integer ⟨9007199254740993, by decide, by decide⟩)))
        (.primitive (.number (.integer ⟨9007199254740992, by decide, by decide⟩))) = .gt := by
  decide

end Sorting

end ObjectQuery
