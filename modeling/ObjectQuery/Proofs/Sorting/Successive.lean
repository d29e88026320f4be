import ObjectQuery.Proofs.Sorting.Stable

/-!
# Sorting what has been sorted

A list has only one stably sorted form (`Sorting.StablySorts.unique`): which of two elements
comes first is decided by the comparison, and where it does not tell them apart, by the list
that was sorted. So to know what successive sorts come to, it is enough to see of which
comparison the outcome is the stable sort. Sorting by one comparison what has been sorted by
another one leaves the elements in the order of the first and, where that does not tell them
apart, in the order of the second (`Sorting.StablySorts.then`).

What sorting keeps is said for all elements at once that are tied with a given one: taken out
of the list (`Sorting.tiedWith`), they are the same list before and behind
(`Sorting.StablySorts.tiedWith_eq`). Both arguments go through these lists, one to pull two
sorted forms together from the front, the other to carry the order of the earlier sort through
the later one.
-/

namespace ObjectQuery.Sorting

variable {α : Type}

/-! ### Tied elements -/

/-- The elements of a list that a comparison does not tell from a given one. -/
def tiedWith (cmp : α → α → Ordering) (a : α) (xs : List α) : List α :=
  xs.filter fun b => cmp a b == .eq

theorem mem_tiedWith {cmp : α → α → Ordering} {a b : α} {xs : List α} :
    b ∈ tiedWith cmp a xs ↔ b ∈ xs ∧ cmp a b = .eq := by
  rw [tiedWith, List.mem_filter, beq_iff_eq]

theorem tiedWith_cons_of_eq {cmp : α → α → Ordering} {a b : α} (h : cmp a b = .eq)
    (xs : List α) : tiedWith cmp a (b :: xs) = b :: tiedWith cmp a xs :=
  List.filter_cons_of_pos (beq_iff_eq.2 h)

theorem tiedWith_cons_of_ne {cmp : α → α → Ordering} {a b : α} (h : cmp a b ≠ .eq)
    (xs : List α) : tiedWith cmp a (b :: xs) = tiedWith cmp a xs :=
  List.filter_cons_of_neg (mt beq_iff_eq.1 h)

theorem tiedWith_self (cmp : α → α → Ordering) (a : α) (xs : List α) :
    tiedWith cmp a (tiedWith cmp a xs) = tiedWith cmp a xs :=
  List.filter_eq_self.2 fun _ hb => beq_iff_eq.2 (mem_tiedWith.1 hb).2

section Comparison

variable {cmp cmp' : α → α → Ordering} [Std.TransCmp cmp] [Std.TransCmp cmp']
  {xs ys zs : List α}

variable (cmp) in
/-- Elements are tied if neither belongs in front of the other. -/
theorem eq_iff_not_lt {a b : α} : cmp a b = .eq ↔ ¬cmp a b = .lt ∧ ¬cmp b a = .lt := by
  have hswap : cmp b a = (cmp a b).swap := Std.OrientedCmp.eq_swap
  rw [hswap]
  cases cmp a b <;> decide

/-- **The elements that are tied with one** stand in the sorted list as they did before. -/
theorem StablySorts.tiedWith_eq (h : StablySorts (fun a b => cmp a b = .lt) xs ys) (a : α) :
    tiedWith cmp a ys = tiedWith cmp a xs := by
  have hties : (tiedWith cmp a xs).Pairwise fun b c => ¬cmp b c = .lt ∧ ¬cmp c b = .lt := by
    refine List.pairwise_of_forall_mem_list fun b hb c hc => (eq_iff_not_lt cmp).1 ?_
    exact Std.TransCmp.eq_trans (Std.OrientedCmp.eq_symm (mem_tiedWith.1 hb).2)
      (mem_tiedWith.1 hc).2
  have hsub : (tiedWith cmp a xs).Sublist (tiedWith cmp a ys) := by
    have hfilter : (tiedWith cmp a (tiedWith cmp a xs)).Sublist (tiedWith cmp a ys) :=
      (h.stable _ List.filter_sublist hties).filter _
    rwa [tiedWith_self] at hfilter
  exact (hsub.eq_of_length (h.perm.filter _).length_eq.symm).symm

/-! ### One sorted form -/

theorem mem_iff_of_tiedWith_eq {a : α} (h : tiedWith cmp a ys = tiedWith cmp a zs) :
    a ∈ ys ↔ a ∈ zs := by
  have hmem := congrArg (a ∈ ·) h
  simpa only [mem_tiedWith, Std.ReflCmp.compare_self, and_true, eq_iff_iff] using hmem

/-- Lists in order are equal if they have the same elements tied with any one, in the same
order. -/
theorem eq_of_ascending_of_tiedWith (hys : ys.Pairwise fun a b => ¬cmp b a = .lt)
    (hzs : zs.Pairwise fun a b => ¬cmp b a = .lt)
    (h : ∀ a, tiedWith cmp a ys = tiedWith cmp a zs) : ys = zs := by
  induction ys generalizing zs with
  | nil =>
    refine (List.eq_nil_iff_forall_not_mem.2 fun z hz => ?_).symm
    exact List.not_mem_nil ((mem_iff_of_tiedWith_eq (h z)).2 hz)
  | cons y ys ih =>
    have hy : y ∈ zs := (mem_iff_of_tiedWith_eq (h y)).1 List.mem_cons_self
    rcases zs with - | ⟨z, zs⟩
    · exact absurd hy List.not_mem_nil
    have hz : z ∈ y :: ys := (mem_iff_of_tiedWith_eq (h z)).2 List.mem_cons_self
    rw [List.pairwise_cons] at hys hzs
    -- each head is a member of the other list, so neither belongs in front of the other one
    have htied : cmp y z = .eq := by
      rcases List.mem_cons.1 hy with rfl | hy
      · exact Std.ReflCmp.compare_self
      rcases List.mem_cons.1 hz with rfl | hz
      · exact Std.ReflCmp.compare_self
      exact (eq_iff_not_lt cmp).2 ⟨hzs.1 y hy, hys.1 z hz⟩
    have hheads := h y
    rw [tiedWith_cons_of_eq Std.ReflCmp.compare_self, tiedWith_cons_of_eq htied] at hheads
    obtain ⟨rfl, -⟩ := List.cons.inj hheads
    refine congrArg (y :: ·) (ih hys.2 hzs.2 fun a => ?_)
    have ha := h a
    by_cases hay : cmp a y = .eq
    · rw [tiedWith_cons_of_eq hay, tiedWith_cons_of_eq hay] at ha
      exact (List.cons.inj ha).2
    · rwa [tiedWith_cons_of_ne hay, tiedWith_cons_of_ne hay] at ha

/-- **A list has one stably sorted form.** -/
theorem StablySorts.unique (hys : StablySorts (fun a b => cmp a b = .lt) xs ys)
    (hzs : StablySorts (fun a b => cmp a b = .lt) xs zs) : ys = zs :=
  eq_of_ascending_of_tiedWith hys.ascending hzs.ascending fun a =>
    (hys.tiedWith_eq a).trans (hzs.tiedWith_eq a).symm

/-! ### One sort behind another -/

omit [Std.TransCmp cmp'] in
/-- A list that is in one order, and in which elements that are tied there are in another one,
is in the order that looks at the first and then at the second. -/
theorem ascending_then (h : ys.Pairwise fun a b => ¬cmp b a = .lt)
    (hties : ∀ a, (tiedWith cmp a ys).Pairwise fun b c => ¬cmp' c b = .lt) :
    ys.Pairwise fun a b => ¬(cmp b a).then (cmp' b a) = .lt := by
  induction ys with
  | nil => exact .nil
  | cons y ys ih =>
    rw [List.pairwise_cons] at h ⊢
    refine ⟨fun z hz hlt => ?_, ih h.2 fun a => ?_⟩
    · rcases Ordering.then_eq_lt.1 hlt with hfirst | ⟨hfirst, hsecond⟩
      · exact h.1 z hz hfirst
      · have hy := hties y
        rw [tiedWith_cons_of_eq Std.ReflCmp.compare_self, List.pairwise_cons] at hy
        exact hy.1 z (mem_tiedWith.2 ⟨hz, Std.OrientedCmp.eq_symm hfirst⟩) hsecond
    · exact (hties a).sublist ((List.sublist_cons_self y ys).filter _)

instance transCmp_then : Std.TransCmp fun a b => (cmp a b).then (cmp' a b) :=
  inferInstanceAs (Std.TransCmp (compareLex cmp cmp'))

/-- **Sorting what has been sorted** sorts by the later comparison, and where that leaves a
tie, by the earlier one. -/
theorem StablySorts.then (hys : StablySorts (fun a b => cmp' a b = .lt) xs ys)
    (hzs : StablySorts (fun a b => cmp a b = .lt) ys zs) :
    StablySorts (fun a b => (cmp a b).then (cmp' a b) = .lt) xs zs where
  perm := hzs.perm.trans hys.perm
  ascending := by
    refine ascending_then hzs.ascending fun a => ?_
    rw [hzs.tiedWith_eq]
    exact hys.ascending.filter _
  stable tied htied hties := by
    have heq : tied.Pairwise fun a b => cmp a b = .eq ∧ cmp' a b = .eq := by
      refine hties.imp fun {a b} h => ?_
      have hboth : (cmp a b).then (cmp' a b) = .eq :=
        (eq_iff_not_lt fun a b => (cmp a b).then (cmp' a b)).2 h
      exact Ordering.then_eq_eq.1 hboth
    have hearlier := hys.stable tied htied (heq.imp fun h => (eq_iff_not_lt cmp').1 h.2)
    exact hzs.stable tied hearlier (heq.imp fun h => (eq_iff_not_lt cmp).1 h.1)

variable (cmp cmp') in
theorem stableSort_then_of_transCmp (xs : List α) :
    stableSort (fun a b => (cmp a b).then (cmp' a b) == .lt) xs =
      stableSort (fun a b => cmp a b == .lt) (stableSort (fun a b => cmp' a b == .lt) xs) :=
  (stablySorts_stableSort_of_transCmp (fun a b => (cmp a b).then (cmp' a b)) xs).unique
    ((stablySorts_stableSort_of_transCmp cmp' xs).then (stablySorts_stableSort_of_transCmp cmp _))

end Comparison

/-! ### Comparisons of some elements -/

/-- **Sorting by one comparison and then by another** is two sorts, that by the second
comparison first, if both are orders on the elements of the list. -/
theorem stableSort_then {cmp cmp' : α → α → Ordering} {xs : List α}
    (h : Std.TransCmp fun a b : { x // x ∈ xs } => cmp a b)
    (h' : Std.TransCmp fun a b : { x // x ∈ xs } => cmp' a b) :
    stableSort (fun a b => (cmp a b).then (cmp' a b) == .lt) xs =
      stableSort (fun a b => cmp a b == .lt) (stableSort (fun a b => cmp' a b == .lt) xs) := by
  have hattach := stableSort_then_of_transCmp (fun a b : { x // x ∈ xs } => cmp a b)
    (fun a b => cmp' a b) xs.attach
  have hxs := List.attach_map_subtype_val xs
  calc stableSort (fun a b => (cmp a b).then (cmp' a b) == .lt) xs
    _ = (stableSort (fun a b : { x // x ∈ xs } => (cmp a b).then (cmp' a b) == .lt)
          xs.attach).map Subtype.val := by
      rw [← stableSort_map (fun a b => (cmp a b).then (cmp' a b) == .lt), hxs]
    _ = stableSort (fun a b => cmp a b == .lt)
          ((stableSort (fun a b : { x // x ∈ xs } => cmp' a b == .lt) xs.attach).map
            Subtype.val) := by
      rw [hattach, ← stableSort_map (fun a b => cmp a b == .lt)]
    _ = stableSort (fun a b => cmp a b == .lt) (stableSort (fun a b => cmp' a b == .lt) xs) := by
      rw [← stableSort_map (fun a b => cmp' a b == .lt), hxs]

/-- **Sorting leaves a sorted list alone**, by any comparison. -/
theorem stableSort_of_ascending {less : α → α → Bool} {xs : List α}
    (h : xs.Pairwise fun a b => ¬less b a = true) : stableSort less xs = xs := by
  have hreverse : xs.reverse.Pairwise fun a b => ¬less a b = true := List.pairwise_reverse.2 h
  rw [stableSort_eq_insertionSort, hreverse.insertionSort_eq, List.reverse_reverse]

end ObjectQuery.Sorting
