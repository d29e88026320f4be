import ObjectQuery.Proofs.Sorting.Merging

/-!
# Sorting by halves

What is known of a sort depends on the comparison. Whatever that is like, a result has the
elements of the list; and if it is an order, there is a result, and it is the stable sort
(`Sorting.SortOf`, `Sorting.Reliable`). Each part of the program is shown to be reliable in this
sense, and one after the other they are put together by `Sorting.Reliable.bind`.

Here this is done up to the lists that are sorted by halves (`Sorting.sortByHalves_reliable`).
The only step that can break off is the merge of the halves. It never does under an order, since
the halves are then sorted, and neither is longer than the other one by more than one element.
-/

namespace ObjectQuery.Sorting

variable {α β : Type} {cmp : α → α → Ordering}

/-- A list is another one, sorted as well as a comparison allows: nothing is lost, repeated or made
up, and if the comparison is an order, it is the stable sort. -/
structure SortOf (cmp : α → α → Ordering) (xs ys : List α) : Prop where
  perm : ys.Perm xs
  eq_stableSort : Std.TransCmp cmp → ys = stableSort (lessBy cmp) xs

/-- An attempt that gives nothing but results of a kind, and that breaks off only if the comparison
is not an order. -/
structure Reliable (cmp : α → α → Ordering) (kind : β → Prop) (attempt : Option β) : Prop where
  sound : ∀ result, attempt = some result → kind result
  ne_none : Std.TransCmp cmp → attempt ≠ none

namespace Reliable

variable {γ : Type} {kind : β → Prop} {kind' : γ → Prop} {attempt : Option β}

theorem of_kind {result : β} (h : kind result) : Reliable cmp kind (some result) where
  sound _ heq := Option.some.inj heq ▸ h
  ne_none _ := Option.some_ne_none _

/-- One attempt and then another one. -/
theorem bind {next : β → Option γ} (h : Reliable cmp kind attempt)
    (hnext : ∀ result, kind result → Reliable cmp kind' (next result)) :
    Reliable cmp kind' (attempt >>= next) := by
  cases attempt with
  | none => exact ⟨fun _ heq => (nomatch heq), fun hcmp => (h.ne_none hcmp rfl).elim⟩
  | some result => exact hnext result (h.sound result rfl)

end Reliable

namespace SortOf

variable {xs ys xs' ys' : List α}

variable (cmp) in
theorem stableSort (xs : List α) : SortOf cmp xs (stableSort (lessBy cmp) xs) :=
  ⟨stableSort_perm _ xs, fun _ => rfl⟩

theorem ascending (h : SortOf cmp xs ys) [Std.TransCmp cmp] : Ascending cmp ys := by
  rw [h.eq_stableSort inferInstance]
  exact ascending_stableSort cmp xs

theorem tiedWith_eq (h : SortOf cmp xs ys) [Std.TransCmp cmp] (a : α) :
    tiedWith cmp a ys = tiedWith cmp a xs := by
  rw [h.eq_stableSort inferInstance]
  exact tiedWith_stableSort cmp a xs

variable [Std.TransCmp cmp] in
theorem stableSort_append (h : SortOf cmp xs xs') (h' : SortOf cmp ys ys') :
    Sorting.stableSort (lessBy cmp) (xs' ++ ys') = Sorting.stableSort (lessBy cmp) (xs ++ ys) := by
  refine Sorting.eq_stableSort (ascending_stableSort cmp _) fun a => ?_
  rw [tiedWith_stableSort, tiedWith_append, tiedWith_append, h.tiedWith_eq, h'.tiedWith_eq]

/-- **A merge of two sorted lists** is sorted. -/
theorem merge (h : SortOf cmp xs xs') (h' : SortOf cmp ys ys') :
    SortOf cmp (xs ++ ys) (merge (lessBy cmp) xs' ys') where
  perm := by
    refine List.Perm.trans ?_ (h.perm.append h'.perm)
    rw [Sorting.merge]
    split
    · exact mergeUp_perm ..
    · exact mergeDown_perm ..
  eq_stableSort _ := by
    rw [Sorting.merge, mergeUp_eq_stableSort h.ascending h'.ascending,
      mergeDown_eq_stableSort h.ascending h'.ascending, ite_self, h.stableSort_append h']

end SortOf

/-! ### Four elements -/

theorem mergePairs_perm (less : α → α → Bool) (a b c d : α) :
    (mergePairs less a b c d).Perm [a, b, c, d] := by
  classical
  rw [List.perm_iff_count]
  intro e
  unfold mergePairs
  dsimp only
  split_ifs <;> simp only [List.count_cons, List.count_nil] <;> omega

theorem mergePairs_eq_mergeUp [Std.TransCmp cmp] {a b c d : α} (hab : ¬cmp b a = .lt)
    (hcd : ¬cmp d c = .lt) :
    mergePairs (lessBy cmp) a b c d = mergeUp (lessBy cmp) [a, b] [c, d] := by
  by_cases hca : cmp c a = .lt
  · by_cases hdb : cmp d b = .lt
    · by_cases hda : cmp d a = .lt <;>
      simp [mergePairs, mergeUp_cons_cons, hca, hdb, hda]
    · have hda : ¬cmp d a = .lt := not_lt_trans hab hdb
      simp [mergePairs, mergeUp_cons_cons, hca, hdb, hda, hab]
  · by_cases hdb : cmp d b = .lt
    · have hcb : cmp c b = .lt := lt_of_not_lt_of_lt hcd hdb
      simp [mergePairs, mergeUp_cons_cons, hca, hdb, hcb, hcd]
    · by_cases hcb : cmp c b = .lt <;>
      simp [mergePairs, mergeUp_cons_cons, hca, hdb, hcb]

theorem stableSort_pair (less : α → α → Bool) (x y : α) :
    stableSort less [x, y] = if less y x then [y, x] else [x, y] := by
  cases h : less y x <;> simp [stableSort, insertAll, insertFromEnd, h]

theorem sortFour_eq (less : α → α → Bool) (w x y z : α) :
    ∃ a b c d, stableSort less [w, x] = [a, b] ∧ stableSort less [y, z] = [c, d] ∧
      sortFour less w x y z = mergePairs less a b c d := by
  simp only [stableSort_pair, sortFour]
  cases less x w <;> cases less z y <;> exact ⟨_, _, _, _, rfl, rfl, rfl⟩

variable (cmp) in
/-- **Four elements** are sorted by five comparisons. -/
theorem sortFour_sortOf (w x y z : α) :
    SortOf cmp [w, x, y, z] (sortFour (lessBy cmp) w x y z) := by
  obtain ⟨a, b, c, d, hfirst, hsecond, hmerge⟩ := sortFour_eq (lessBy cmp) w x y z
  have h := SortOf.stableSort cmp [w, x]
  have h' := SortOf.stableSort cmp [y, z]
  rw [hfirst] at h
  rw [hsecond] at h'
  rw [hmerge]
  refine ⟨(mergePairs_perm _ a b c d).trans (h.perm.append h'.perm), fun _ => ?_⟩
  have hab : ¬cmp b a = .lt := List.rel_of_pairwise_cons h.ascending List.mem_cons_self
  have hcd : ¬cmp d c = .lt := List.rel_of_pairwise_cons h'.ascending List.mem_cons_self
  rw [mergePairs_eq_mergeUp hab hcd, mergeUp_eq_stableSort h.ascending h'.ascending]
  exact h.stableSort_append h'

/-! ### Halves -/

theorem insertAll_stableSort (less : α → α → Bool) (xs ys : List α) :
    insertAll less (stableSort less xs) ys = stableSort less (xs ++ ys) := by
  rw [stableSort, stableSort, insertAll, insertAll, insertAll, List.reverse_reverse,
    List.foldl_append]

variable (cmp) in
theorem sortHalf_sortOf (byFour : Bool) (xs : List α) :
    SortOf cmp xs (sortHalf (lessBy cmp) byFour xs) := by
  unfold sortHalf
  split
  case h_1 w x y z rest =>
    have hfour := sortFour_sortOf cmp w x y z
    refine ⟨(insertAll_perm _ _ rest).trans (hfour.perm.append_right rest), fun hcmp => ?_⟩
    rw [hfour.eq_stableSort hcmp, insertAll_stableSort]
    rfl
  case h_2 => exact .stableSort cmp xs

variable (cmp) in
/-- **Sorting by halves** breaks off only if the comparison is not an order. -/
theorem sortByHalves_reliable (xs : List α) :
    Reliable cmp (SortOf cmp xs) (sortByHalves (lessBy cmp) xs) := by
  rw [sortByHalves]
  split
  case isTrue hshort =>
    have hsort : Sorting.stableSort (lessBy cmp) xs = xs := by
      rcases xs with - | ⟨x, - | ⟨y, xs⟩⟩
      · rfl
      · rfl
      · simp only [List.length_cons] at hshort
        omega
    have h := SortOf.stableSort cmp xs
    rw [hsort] at h
    exact .of_kind h
  case isFalse =>
    have h := sortHalf_sortOf cmp (decide (8 ≤ xs.length)) (xs.take (xs.length / 2))
    have h' := sortHalf_sortOf cmp (decide (8 ≤ xs.length)) (xs.drop (xs.length / 2))
    have hlen := h.perm.length_eq
    have hlen' := h'.perm.length_eq
    rw [List.length_take] at hlen
    rw [List.length_drop] at hlen'
    have hmerge : Std.TransCmp cmp → mergeEnds (lessBy cmp) _ _ = some _ := fun _ =>
      mergeEnds_eq_stableSort h.ascending h'.ascending (by omega) (by omega)
    refine ⟨fun ys hys => ⟨?_, fun hcmp => ?_⟩, fun hcmp => ?_⟩
    · have hperm := mergeEnds_perm (by omega) hys
      have happend := h.perm.append h'.perm
      rw [List.take_append_drop] at happend
      exact hperm.trans happend
    · rw [hmerge hcmp] at hys
      rw [← Option.some.inj hys, h.stableSort_append h', List.take_append_drop]
    · rw [hmerge hcmp]
      exact Option.some_ne_none _

end ObjectQuery.Sorting
