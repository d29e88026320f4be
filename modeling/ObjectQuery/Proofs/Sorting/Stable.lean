import Mathlib.Data.List.Sort
import ObjectQuery.Sorting

/-!
# Sorting is stable

`Sorting.StablySorts` says what a sorted list is of another one: it has the same elements,
none stands behind one that it belongs in front of, and elements that belong in front of
neither keep their order.

Insertion from the end is insertion sort by the converse relation, on the reversed list
(`Sorting.stableSort_eq_insertionSort`), and inherits its properties from there. They need
a comparison that is an order. The comparison of rows is one on some lists of rows only,
so the result is stated for a comparison that is an order **on the elements of the list**
(`Sorting.stablySorts_stableSort`), which sorting never leaves
(`Sorting.stableSort_map`).
-/

namespace ObjectQuery.Sorting

variable {α β : Type}

/-- One list is the other one, sorted stably by a relation that says which elements belong
in front of which. -/
structure StablySorts (before : α → α → Prop) (input output : List α) : Prop where
  /-- No element is lost, repeated or made up. -/
  perm : output.Perm input
  /-- No element stands behind one that it belongs in front of. -/
  ascending : output.Pairwise fun a b => ¬before b a
  /-- Elements that belong in front of neither come out in the order they went in. -/
  stable : ∀ tied : List α, tied.Sublist input →
    (tied.Pairwise fun a b => ¬before a b ∧ ¬before b a) → tied.Sublist output

/-! ### Insertion from the end -/

theorem insertFromEnd_eq_orderedInsert (less : α → α → Bool) (x : α) (xs : List α) :
    insertFromEnd less x xs = xs.orderedInsert (fun a b => ¬less a b = true) x := by
  induction xs with
  | nil => rfl
  | cons y ys ih =>
    rw [insertFromEnd, List.orderedInsert_cons, ih]
    cases less x y <;> rfl

theorem stableSort_eq_insertionSort (less : α → α → Bool) (xs : List α) :
    stableSort less xs = (xs.reverse.insertionSort fun a b => ¬less a b = true).reverse := by
  rw [stableSort, insertAll, List.insertionSort, List.foldr_reverse]
  simp only [insertFromEnd_eq_orderedInsert, List.reverse_nil]

/-- Sorting commutes with looking at the elements through a function. -/
theorem stableSort_map (less : β → β → Bool) (f : α → β) (xs : List α) :
    stableSort less (xs.map f) = (stableSort (fun a b => less (f a) (f b)) xs).map f := by
  rw [stableSort_eq_insertionSort, stableSort_eq_insertionSort, List.map_reverse,
    List.map_insertionSort _ (fun a b => ¬less a b = true) f _ fun _ _ _ _ => Iff.rfl,
    List.map_reverse]

/-! ### Stability -/

section Comparison

variable (cmp : α → α → Ordering) [Std.TransCmp cmp]

instance total_not_lt : Std.Total fun a b : α => ¬(cmp a b == .lt) = true where
  total a b := by
    simp only [beq_iff_eq]
    rw [← not_and_or]
    rintro ⟨hab, hba⟩
    have hswap : cmp a b = (cmp b a).swap := Std.OrientedCmp.eq_swap
    rw [hab, hba] at hswap
    cases hswap

instance isTrans_not_lt : IsTrans α fun a b : α => ¬(cmp a b == .lt) = true where
  trans a b c hab hbc := by
    simp only [beq_iff_eq, ← Ordering.isGE_iff_ne_lt] at hab hbc ⊢
    exact Std.TransCmp.isGE_trans hab hbc

theorem stablySorts_stableSort_of_transCmp (xs : List α) :
    StablySorts (fun a b => cmp a b = .lt) xs (stableSort (fun a b => cmp a b == .lt) xs) where
  perm := stableSort_perm _ _
  ascending := by
    have hsorted := List.pairwise_insertionSort (fun a b => ¬(cmp a b == .lt) = true) xs.reverse
    rw [stableSort_eq_insertionSort, List.pairwise_reverse]
    exact hsorted.imp fun h hlt => h (beq_iff_eq.2 hlt)
  stable tied htied hties := by
    rw [stableSort_eq_insertionSort, ← List.reverse_sublist, List.reverse_reverse]
    refine List.sublist_insertionSort ?_ htied.reverse
    rw [List.pairwise_reverse]
    exact hties.imp fun h hlt => h.2 (beq_iff_eq.1 hlt)

end Comparison

/-- **Sorting is stable** by a comparison that is an order on the elements of the list. -/
theorem stablySorts_stableSort {cmp : α → α → Ordering} {xs : List α}
    (h : Std.TransCmp fun a b : { x // x ∈ xs } => cmp a b) :
    StablySorts (fun a b => cmp a b = .lt) xs (stableSort (fun a b => cmp a b == .lt) xs) := by
  have hattach := stablySorts_stableSort_of_transCmp (fun a b : { x // x ∈ xs } => cmp a b)
    xs.attach
  have hmap : stableSort (fun a b => cmp a b == .lt) xs =
      (stableSort (fun a b : { x // x ∈ xs } => cmp a b == .lt) xs.attach).map Subtype.val := by
    rw [← stableSort_map (fun a b => cmp a b == .lt), List.attach_map_subtype_val]
  refine ⟨stableSort_perm _ _, ?_, fun tied htied hties => ?_⟩
  · rw [hmap, List.pairwise_map]
    exact hattach.ascending
  · -- the elements tied are elements of the list, and are so in the same order
    rw [← List.attach_map_subtype_val xs] at htied
    obtain ⟨tied', htied', rfl⟩ := List.sublist_map_iff.1 htied
    rw [hmap]
    exact (hattach.stable tied' htied' (List.pairwise_map.1 hties)).map _

end ObjectQuery.Sorting
