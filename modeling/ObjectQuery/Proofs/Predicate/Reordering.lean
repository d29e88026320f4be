import Mathlib.Combinatorics.Hall.Basic
import Mathlib.Data.List.FinRange
import Mathlib.Data.List.Forall2
import ObjectQuery.Predicate.Basic

/-!
# Operands in any order

That a list holds certain operands and no others, in whatever order, means that elements
and operands can be matched one to one: some reordering of the operands matches the
elements pairwise. The predicate `Predicate.containsExactlyInAnyOrder` does not look for
such a matching. It compares the lengths, and asks of every operand **by itself** that
some element matches it.

By Hall's theorem a matching exists exactly if every group of operands is matched by at
least as many elements as the group has members (`exists_perm_forall₂_iff`). The predicate
checks this for groups of one, and what it leaves out is exactly the other groups
(`Predicate.exists_reordering_iff`): it never refuses a list that has a matching, and it
accepts one that has none where several operands have to share an element. Repeated
operands do so (`Predicate.containsExactlyInAnyOrder_accepts_repeated`), and so do two
doubles that a whole number matches both of.
-/

namespace ObjectQuery

/-! ### Matching two lists one to one -/

section Matching

variable {α β : Type} {r : α → β → Bool} {xs : List α} {ys zs : List β}

/-- Whatever a list that matches pairwise leaves out, what is left still does. -/
theorem exists_sublist_forall₂ {group : List β} (h : List.Forall₂ (r · · = true) xs zs)
    (hgroup : group.Sublist zs) :
    ∃ xs', xs'.Sublist xs ∧ List.Forall₂ (r · · = true) xs' group := by
  induction h generalizing group with
  | nil =>
    obtain rfl := List.sublist_nil.1 hgroup
    exact ⟨[], .slnil, .nil⟩
  | cons hxz _ ih =>
    rcases List.sublist_cons_iff.1 hgroup with hrest | ⟨group', rfl, hrest⟩
    · obtain ⟨xs', hxs', hmatch⟩ := ih hrest
      exact ⟨xs', hxs'.cons _, hmatch⟩
    · obtain ⟨xs', hxs', hmatch⟩ := ih hrest
      exact ⟨_ :: xs', hxs'.cons_cons _, .cons hxz hmatch⟩

/-- What matches pairwise is matched by some member. -/
theorem any_of_forall₂ (h : List.Forall₂ (r · · = true) xs ys) {x : α} (hx : x ∈ xs) :
    ys.any (r x) = true := by
  induction h with
  | nil => cases hx
  | cons hxy _ ih =>
    rw [List.any_cons, Bool.or_eq_true]
    rcases List.mem_cons.1 hx with rfl | hx
    · exact .inl hxy
    · exact .inr (ih hx)

/-- Every group of what is matched one to one is matched by as many as it has members. -/
theorem length_le_of_perm_forall₂ {group : List β} (hzs : zs.Perm ys)
    (h : List.Forall₂ (r · · = true) xs zs) (hgroup : group.Sublist ys) :
    group.length ≤ (xs.filter fun x => group.any (r x)).length := by
  obtain ⟨group', hperm, hsub⟩ := hgroup.subperm.trans hzs.symm.subperm
  obtain ⟨xs', hxs', hmatch⟩ := exists_sublist_forall₂ h hsub
  have hall : xs'.filter (fun x => group.any (r x)) = xs' := by
    refine List.filter_eq_self.2 fun x hx => ?_
    rw [← hperm.any_eq]
    exact any_of_forall₂ hmatch hx
  calc group.length = xs'.length := hperm.length_eq.symm.trans hmatch.length_eq.symm
    _ = (xs'.filter fun x => group.any (r x)).length := by rw [hall]
    _ ≤ (xs.filter fun x => group.any (r x)).length := (hxs'.filter _).length_le

/-- The places of a list where a test succeeds are as many as the members that pass it. -/
theorem card_filter_get (p : α → Bool) (xs : List α) :
    (Finset.univ.filter fun i : Fin xs.length => p (xs.get i) = true).card =
      (xs.filter p).length := by
  have hplaces : xs.filter p = ((List.finRange xs.length).filter (p ∘ xs.get)).map xs.get := by
    rw [← List.filter_map, List.map_get_finRange]
  rw [hplaces, List.length_map,
    ← List.toFinset_card_of_nodup ((List.nodup_finRange _).filter _)]
  congr 1
  ext i
  simp

/-- The members at given places are a part of the list, as long as there are places. -/
theorem exists_sublist_of_places (s : Finset (Fin ys.length)) :
    ∃ group : List β, group.Sublist ys ∧ group.length = s.card ∧
      ∀ y, y ∈ group ↔ ∃ j ∈ s, ys.get j = y := by
  refine ⟨((List.finRange ys.length).filter (· ∈ s)).map ys.get, ?_, ?_, fun y => ?_⟩
  · have hsub := (List.filter_sublist (p := (· ∈ s)) (l := List.finRange ys.length)).map ys.get
    rwa [List.map_get_finRange] at hsub
  · rw [List.length_map, ← List.toFinset_card_of_nodup ((List.nodup_finRange _).filter _)]
    congr 1
    ext j
    simp
  · simp

/-- Choosing a place of its own for every member of a list of the same length puts this
list in the order of the places. -/
theorem exists_perm_of_injective (hlength : xs.length = ys.length)
    {f : Fin ys.length → Fin xs.length} (hinjective : Function.Injective f)
    (hf : ∀ j, r (xs.get (f j)) (ys.get j) = true) :
    ∃ zs, zs.Perm ys ∧ List.Forall₂ (r · · = true) xs zs := by
  have hbijective : Function.Bijective f :=
    (Fintype.bijective_iff_injective_and_card f).2 ⟨hinjective, by simp [hlength]⟩
  let g : Fin xs.length ≃ Fin ys.length := (Equiv.ofBijective f hbijective).symm
  have hg : ∀ i, f (g i) = i := (Equiv.ofBijective f hbijective).apply_symm_apply
  refine ⟨(List.finRange xs.length).map (ys.get ∘ g), ?_, ?_⟩
  · have hplaces : ((List.finRange xs.length).map g).Perm (List.finRange ys.length) := by
      refine (List.perm_ext_iff_of_nodup ((List.nodup_finRange _).map g.injective)
        (List.nodup_finRange _)).2 fun j => ?_
      simpa using ⟨g.symm j, g.apply_symm_apply j⟩
    have hperm := hplaces.map ys.get
    rwa [List.map_map, List.map_get_finRange] at hperm
  · have hpairs : List.Forall₂ (r · · = true) ((List.finRange xs.length).map xs.get)
        ((List.finRange xs.length).map (ys.get ∘ g)) := by
      rw [List.forall₂_map_left_iff, List.forall₂_map_right_iff, List.forall₂_same]
      intro i _
      have hmatch := hf (g i)
      rwa [hg] at hmatch
    rwa [List.map_get_finRange] at hpairs

/-- **When two lists can be matched one to one**: they are of one length, and every group
of the one is matched by at least as many members of the other. -/
theorem exists_perm_forall₂_iff :
    (∃ zs, zs.Perm ys ∧ List.Forall₂ (r · · = true) xs zs) ↔
      xs.length = ys.length ∧
        ∀ group : List β, group.Sublist ys →
          group.length ≤ (xs.filter fun x => group.any (r x)).length := by
  constructor
  · rintro ⟨zs, hzs, hmatch⟩
    exact ⟨hmatch.length_eq.trans hzs.length_eq,
      fun group hgroup => length_le_of_perm_forall₂ hzs hmatch hgroup⟩
  · rintro ⟨hlength, hgroups⟩
    -- a set of places is a group of members, so that the bound is the one of Hall's theorem
    have hhall : ∀ s : Finset (Fin ys.length),
        s.card ≤ (Finset.univ.filter fun i : Fin xs.length =>
          ∃ j ∈ s, r (xs.get i) (ys.get j) = true).card := by
      intro s
      obtain ⟨group, hgroup, hcard, hmem⟩ := exists_sublist_of_places s
      have hany : ∀ x, group.any (r x) = true ↔ ∃ j ∈ s, r x (ys.get j) = true := by
        intro x
        simp [hmem]
      have hle := hgroups group hgroup
      rw [hcard, ← card_filter_get] at hle
      simpa only [hany] using hle
    obtain ⟨f, hinjective, hf⟩ :=
      (Fintype.all_card_le_filter_rel_iff_exists_injective
        fun (j : Fin ys.length) (i : Fin xs.length) => r (xs.get i) (ys.get j) = true).1
        fun s => by convert hhall s
    exact exists_perm_of_injective hlength hinjective hf

end Matching

namespace Predicate

/-- Elements and operands match pairwise, member by member. -/
theorem matchPairwise_iff {elements : List Found} {operands : List Value} :
    matchPairwise elements operands = true ↔
      List.Forall₂ (elementEquals · · = true) elements operands := by
  induction elements generalizing operands with
  | nil => cases operands <;> simp [matchPairwise]
  | cons element elements ih =>
    cases operands with
    | nil => simp [matchPairwise]
    | cons operand operands => rw [matchPairwise, Bool.and_eq_true, ih, List.forall₂_cons]

theorem test_containsExactly_iff {elements : List Found} {operands : List Value} :
    (containsExactly operands).test (.list elements) = .ok true ↔
      List.Forall₂ (elementEquals · · = true) elements operands := by
  rw [test, onList, Except.ok.injEq, matchPairwise_iff]

/-- In any order, a list is only asked to be as long as the operands, and each operand by
itself to be matched. -/
theorem test_containsExactlyInAnyOrder_iff {elements : List Found} {operands : List Value} :
    (containsExactlyInAnyOrder operands).test (.list elements) = .ok true ↔
      elements.length = operands.length ∧
        ∀ operand ∈ operands, ∃ element ∈ elements, elementEquals element operand = true := by
  simp only [test, onList, containsAll, Except.ok.injEq, Bool.and_eq_true, beq_iff_eq,
    List.all_eq_true, List.any_eq_true]

/-- An operand is matched by some element as soon as the group of this operand alone is
matched by as many as it has members. -/
theorem exists_elementEquals_of_length_le {elements : List Found} {operand : Value}
    (h : [operand].length ≤
      (elements.filter fun element => [operand].any (elementEquals element)).length) :
    ∃ element ∈ elements, elementEquals element operand = true := by
  obtain ⟨element, hmem⟩ := List.exists_mem_of_length_pos (Nat.lt_of_lt_of_le Nat.zero_lt_one h)
  obtain ⟨helement, hequals⟩ := List.mem_filter.1 hmem
  exact ⟨element, helement, by simpa using hequals⟩

/-- **A list that matches a reordering of the operands is one that holds them in any order
and in which, besides, no group of operands has too few elements to match it.** -/
theorem exists_reordering_iff (elements : List Found) (operands : List Value) :
    (∃ reordered : List Value, reordered.Perm operands ∧
      (containsExactly reordered).test (.list elements) = .ok true) ↔
    (containsExactlyInAnyOrder operands).test (.list elements) = .ok true ∧
      ∀ group : List Value, group.Sublist operands →
        group.length ≤
          (elements.filter fun element => group.any (elementEquals element)).length := by
  simp only [test_containsExactly_iff]
  rw [exists_perm_forall₂_iff, test_containsExactlyInAnyOrder_iff, and_assoc]
  refine and_congr_right fun _ => ⟨fun hgroups => ⟨fun operand hoperand => ?_, hgroups⟩, And.right⟩
  exact exists_elementEquals_of_length_le (hgroups [operand] (List.singleton_sublist.2 hoperand))

/-- Two different letters are taken to be twice the same letter, in any order, though no
order of the operands matches them. -/
theorem containsExactlyInAnyOrder_accepts_repeated :
    (containsExactlyInAnyOrder [.string "a", .string "a"]).test
        (.list [.primitive (.string "a"), .primitive (.string "b")]) = .ok true ∧
      ¬∃ reordered : List Value, reordered.Perm [.string "a", .string "a"] ∧
        (containsExactly reordered).test
          (.list [.primitive (.string "a"), .primitive (.string "b")]) = .ok true := by
  refine ⟨rfl, ?_⟩
  rintro ⟨reordered, hperm, htest⟩
  obtain rfl := List.perm_replicate.1 (show reordered.Perm (.replicate 2 (.string "a")) from hperm)
  cases htest

end Predicate

end ObjectQuery
