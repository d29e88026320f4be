import Mathlib.Tactic.MkIffOfInductiveProp
import ObjectQuery.Proofs.Sorting.Order

/-!
# What belongs in front of what

`Sorting.Precedes` says when a value belongs in front of another one under a sort key, by
one rule for each reason there is: the none family stands at the end that a setting
decides, whatever the direction, and the other values go up or down by `Found.Below`,
which ranks the kinds and orders each kind in itself. Comparing values decides it
(`Sorting.compareValues_eq_lt_iff`).

Several keys compare rows by an order as soon as each of them does so for the values that
the rows have under it, and a key does if no double among these values blurs two integers
(`Sorting.transCmp_compareColumns`). A column whose numbers are all integers, or all
doubles, has nothing to blur (`Found.NumbersAgree.not_blurs`).
-/

namespace ObjectQuery

namespace Found

/-! ### Ascending values -/

/-- A value that is there stands below another one. Integers compare exactly, and a
double with any number by the nearest double. -/
inductive Below : Found → Found → Prop
  | boolean : Below (.primitive (.boolean false)) (.primitive (.boolean true))
  | integer {i j : Integer} (h : i.val < j.val) :
    Below (.primitive (.number (.integer i))) (.primitive (.number (.integer j)))
  | double_number {d : Double} {n : Number} (h : d.place < n.place) :
    Below (.primitive (.number (.double d))) (.primitive (.number n))
  | number_double {n : Number} {d : Double} (h : n.place < d.place) :
    Below (.primitive (.number n)) (.primitive (.number (.double d)))
  | string {s t : String} (h : s < t) : Below (.primitive (.string s)) (.primitive (.string t))
  | boolean_number {b : Bool} {n : Number} :
    Below (.primitive (.boolean b)) (.primitive (.number n))
  | boolean_string {b : Bool} {s : String} :
    Below (.primitive (.boolean b)) (.primitive (.string s))
  | number_string {n : Number} {s : String} :
    Below (.primitive (.number n)) (.primitive (.string s))
  | primitive_complex {p : Primitive} {fields : List (String × Value)} :
    Below (.primitive p) (.complex fields)
  | primitive_list {p : Primitive} {elements : List Found} :
    Below (.primitive p) (.list elements)

theorem Below.isNone_left {a b : Found} (h : a.Below b) : a.isNone = false := by
  cases h <;> rfl

theorem Below.isNone_right {a b : Found} (h : a.Below b) : b.isNone = false := by
  cases h <;> rfl

theorem below_number_iff {m n : Number} :
    Below (.primitive (.number m)) (.primitive (.number n)) ↔ m.compare n = .lt := by
  constructor
  · intro h
    cases h with
    | integer h => rwa [Number.compare_integer_integer, Int.compare_eq_lt]
    | double_number h => rwa [Number.compare_double_left, Int.compare_eq_lt]
    | number_double h => rwa [Number.compare_double_right, Int.compare_eq_lt]
  · intro h
    cases m with
    | double d =>
      rw [Number.compare_double_left, Int.compare_eq_lt] at h
      exact .double_number h
    | integer i =>
      cases n with
      | double d =>
        rw [Number.compare_double_right, Int.compare_eq_lt] at h
        exact .number_double h
      | integer j =>
        rw [Number.compare_integer_integer, Int.compare_eq_lt] at h
        exact .integer h

theorem below_primitive_iff {p q : Primitive} :
    Below (.primitive p) (.primitive q) ↔ p.compare q = .lt := by
  -- primitives of different kinds are told by the kinds alone
  cases p with
  | boolean b =>
    cases q with
    | boolean b' =>
      constructor
      · rintro ⟨⟩
        rfl
      · cases b <;> cases b' <;> intro h
        · cases h
        · exact .boolean
        · cases h
        · cases h
    | number n => exact iff_of_true .boolean_number rfl
    | string s => exact iff_of_true .boolean_string rfl
  | number m =>
    cases q with
    | boolean b => exact iff_of_false (by rintro ⟨⟩) (by rintro ⟨⟩)
    | number n => exact below_number_iff
    | string s => exact iff_of_true .number_string rfl
  | string s =>
    cases q with
    | boolean b => exact iff_of_false (by rintro ⟨⟩) (by rintro ⟨⟩)
    | number n => exact iff_of_false (by rintro ⟨⟩) (by rintro ⟨⟩)
    | string t =>
      have hcompare : (Primitive.string s).compare (.string t) = compareOfLessAndEq s t := rfl
      rw [hcompare, compareOfLessAndEq_eq_lt]
      constructor
      · rintro (_ | _ | _ | _ | h)
        exact h
      · exact .string

end Found

namespace Sorting

theorem compareSome_eq_lt_iff {a b : Found} (ha : a.isNone = false) (hb : b.isNone = false) :
    compareSome a b = .lt ↔ a.Below b := by
  cases a with
  | noValue => cases ha
  | notFound reason => cases ha
  | primitive p =>
    cases b with
    | noValue => cases hb
    | notFound reason => cases hb
    | primitive q => exact Found.below_primitive_iff.symm
    | complex fields => exact iff_of_true rfl .primitive_complex
    | list elements => exact iff_of_true rfl .primitive_list
  | complex fields =>
    refine iff_of_false ?_ (by rintro ⟨⟩)
    cases b <;> simp [compareSome]
  | list elements =>
    refine iff_of_false ?_ (by rintro ⟨⟩)
    cases b <;> simp [compareSome]

/-! ### Values under a key -/

/-- A value belongs in front of another one under a key. -/
@[mk_iff]
inductive Precedes (direction : Direction) (noneFirst : Bool) (a b : Found) : Prop
  | none_first (h : noneFirst = true) (ha : a.isNone = true) (hb : b.isNone = false)
  | none_last (h : noneFirst = false) (ha : a.isNone = false) (hb : b.isNone = true)
  | ascending (h : direction = .ascending) (hbelow : a.Below b)
  | descending (h : direction = .descending) (hbelow : b.Below a)

/-- **Comparing values decides which one belongs in front.** -/
theorem compareValues_eq_lt_iff {direction : Direction} {noneFirst : Bool} {a b : Found} :
    compareValues direction noneFirst a b = .lt ↔ Precedes direction noneFirst a b := by
  rw [compareValues, precedes_iff]
  cases ha : a.isNone <;> cases hb : b.isNone
  · cases direction with
    | ascending => simp [Direction.apply, compareSome_eq_lt_iff ha hb]
    | descending =>
      rw [Direction.apply, ← compareSome_swap, compareSome_eq_lt_iff hb ha]
      simp
  · have hab : ¬a.Below b := fun h => by simp [h.isNone_right] at hb
    have hba : ¬b.Below a := fun h => by simp [h.isNone_left] at hb
    cases noneFirst <;> simp [hab, hba]
  · have hab : ¬a.Below b := fun h => by simp [h.isNone_left] at ha
    have hba : ¬b.Below a := fun h => by simp [h.isNone_right] at ha
    cases noneFirst <;> simp [hab, hba]
  · have hab : ¬a.Below b := fun h => by simp [h.isNone_left] at ha
    have hba : ¬b.Below a := fun h => by simp [h.isNone_left] at hb
    simp [hab, hba]

theorem compareValues_eq_eq_iff {direction : Direction} {noneFirst : Bool} {a b : Found} :
    compareValues direction noneFirst a b = .eq ↔
      ¬Precedes direction noneFirst a b ∧ ¬Precedes direction noneFirst b a := by
  rw [← compareValues_eq_lt_iff, ← compareValues_eq_lt_iff, compareValues_swap _ _ b a]
  cases compareValues direction noneFirst a b <;> decide

/-! ### Rows under several keys -/

/-- **Comparing rows is an order** on rows among whose values under a key no double blurs
two integers. -/
theorem transCmp_compareColumns {ι : Type} (noneFirst : Bool) {keys : List (Nat × Direction)}
    (columns : ι → List Found)
    (h : ∀ key ∈ keys, ∀ a b c : ι, ¬Found.Blurs (columnValue (columns a) key.1)
      (columnValue (columns b) key.1) (columnValue (columns c) key.1)) :
    Std.TransCmp fun a b => compareColumns noneFirst keys (columns a) (columns b) := by
  induction keys with
  | nil => exact { eq_swap := rfl, isLE_trans := fun _ _ => rfl }
  | cons key rest ih =>
    have hrest := ih fun key' hkey' => h key' (List.mem_cons_of_mem _ hkey')
    have hkey : Std.TransCmp fun a b => compareValues key.2 noneFirst
        (columnValue (columns a) key.1) (columnValue (columns b) key.1) :=
      { eq_swap := compareValues_swap _ _ _ _
        isLE_trans := fun hab hbc =>
          (compareValues_isLE_trans_or_blurs _ _ hab hbc).resolve_right
            (h key List.mem_cons_self _ _ _) }
    exact inferInstanceAs (Std.TransCmp (compareLex _ _))

end Sorting

/-! ### Columns of one kind of number -/

namespace Found

/-- The numbers among values are all integers, or all doubles. -/
def NumbersAgree (values : List Found) : Prop :=
  (∀ d, .primitive (.number (.double d)) ∉ values) ∨
    ∀ i, .primitive (.number (.integer i)) ∉ values

theorem NumbersAgree.not_blurs {values : List Found} (h : NumbersAgree values) {a b c : Found}
    (ha : a ∈ values) (hb : b ∈ values) : ¬Blurs a b c := by
  rintro ⟨⟨-, -, -⟩⟩
  rcases h with hdouble | hinteger
  · exact hdouble _ hb
  · exact hinteger _ ha

end Found

end ObjectQuery
