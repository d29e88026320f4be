import ObjectQuery.Proofs.Placing
import ObjectQuery.Store.NameSet

/-!
# Sets of names, as lists

A set of names is nothing but its members in ascending order. So a set is empty if it has
no members, and putting its members in one by one, in this order, gives the set again
(`NameSet.ofList_toList`): every name that is put in stands behind those that are there.
-/

namespace ObjectQuery.NameSet

theorem isEmpty_iff {names : NameSet} : names.isEmpty = true ↔ names = .empty := by
  obtain ⟨names, hascending⟩ := names
  rw [isEmpty, List.isEmpty_iff, empty, mk.injEq]

theorem contains_iff {names : NameSet} {name : String} :
    names.contains name = true ↔ name ∈ names.toList := by
  rw [contains, List.contains_iff_mem]

theorem toList_injective {s t : NameSet} (h : s.toList = t.toList) : s = t := by
  cases s
  cases t
  cases h
  rfl

/-- Names are put in their places, each being its own key. -/
theorem insertSorted_eq_place (name : String) (names : List String) :
    insertSorted name names = Placing.place id name names := by
  induction names with
  | nil => rfl
  | cons n rest ih =>
    simp only [insertSorted, Placing.place, ih, id_eq]
    -- a name that is there stays, where another one would take its place
    split_ifs with hlt heq
    · rfl
    · rw [heq]
    · rfl

theorem toList_foldl_insert (names : List String) (s : NameSet) :
    (names.foldl insert s).toList = Placing.placeAll id s.toList names := by
  induction names generalizing s with
  | nil => rfl
  | cons name rest ih =>
    have hinsert : (s.insert name).toList = Placing.place id name s.toList :=
      insertSorted_eq_place name s.toList
    rw [List.foldl_cons, ih, hinsert]
    rfl

/-- **A set is the set of its members.** -/
theorem ofList_toList (s : NameSet) : ofList s.toList = s :=
  toList_injective ((toList_foldl_insert s.toList empty).trans
    (Placing.placeAll_of_ascends s.ascending))

end ObjectQuery.NameSet
