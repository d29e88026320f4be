import ObjectQuery.Proofs.Sorting.Runs

/-!
# Sorting a list

Every way of sorting a list is reliable (`Sorting.sortMembers_reliable`). So a sort that has a
result has the elements of the list (`Sorting.sort_perm`), and a sort by an order is the stable
sort (`Sorting.sort_eq_stableSort`), of which nothing more needs to be known than that it is one:
all that is proved on the order of rows elsewhere is about `Sorting.stableSort`.

That elements go to the two sides of a pivot and each side is sorted by itself is right because
the sides are told apart by the order, and elements that are tied go to the same one
(`Sorting.stableSort_filter`). Where a pivot turns out to be the least of its list, the elements
equal to it are taken out unsorted. The program knows the pivot to be the least because it is not
greater than one that nothing in the list is less than, and this is what the induction carries
(`Sorting.sortByPivots_reliable`).
-/

namespace ObjectQuery.Sorting

variable {α : Type} {cmp : α → α → Ordering}

/-! ### At once -/

variable (cmp) in
theorem sortAtOnce_reliable (xs : List α) :
    Reliable cmp (SortOf cmp xs) (sortAtOnce (lessBy cmp) xs) := by
  refine (cutRuns_reliable (fun _ _ h => h) (sortByHalves_reliable cmp) _ _ xs).bind ?_
  rintro runs ⟨parts, rfl, hruns⟩
  exact mergeRuns_reliable (fun _ _ _ _ h h' => .of_kind (h.merge h')) _ _
    (.stableSort cmp []) hruns

/-! ### Parting at a pivot -/

theorem eq_append_getElem (xs : List α) (i : Fin xs.length) :
    xs = xs.take i ++ ([xs.get i] ++ xs.drop (i + 1)) := by
  simp

theorem part_perm (goesLeft : α → Bool) (pivotLeft : Bool) (xs : List α) (i : Fin xs.length) :
    ((part goesLeft pivotLeft xs i).1 ++ (part goesLeft pivotLeft xs i).2).Perm xs := by
  have hsides : ∀ ys : List α, ((ys.filter fun x => goesLeft x == true) ++
      ys.filter fun x => goesLeft x == false).Perm ys := fun ys => by
    simpa only [beq_true, beq_false] using List.filter_append_perm goesLeft ys
  have hpivot : ((if pivotLeft = true then [xs.get i] else []) ++
      if pivotLeft = false then [xs.get i] else []) = [xs.get i] := by
    cases pivotLeft <;> rfl
  conv_rhs => rw [eq_append_getElem xs i]
  classical
  refine List.perm_iff_count.2 fun a => ?_
  have hfront := (hsides (xs.take i)).count_eq a
  have hback := (hsides (xs.drop (i + 1))).count_eq a
  have hpivot := congrArg (List.count a) hpivot
  simp only [part, List.count_append] at hfront hback hpivot ⊢
  omega

theorem part_eq_filter {goesLeft : α → Bool} {pivotLeft : Bool} {xs : List α} {i : Fin xs.length}
    (h : goesLeft (xs.get i) = pivotLeft) :
    part goesLeft pivotLeft xs i = (xs.filter goesLeft, xs.filter fun x => !goesLeft x) := by
  conv_rhs => rw [eq_append_getElem xs i]
  simp only [part, List.filter_append, beq_true, beq_false, List.append_assoc, List.get_eq_getElem]
  rw [List.get_eq_getElem] at h
  cases pivotLeft <;> simp [h]

section Order

variable [Std.TransCmp cmp] {xs : List α}

/-- A list can be sorted in two parts that are told apart by the order. -/
theorem stableSort_filter {q : α → Bool}
    (hcross : ∀ x y, q x = true → q y = false → ¬cmp y x = .lt)
    (hties : ∀ a b, cmp a b = .eq → q a = q b) :
    stableSort (lessBy cmp) (xs.filter q) ++ stableSort (lessBy cmp) (xs.filter fun x => !q x) =
      stableSort (lessBy cmp) xs := by
  refine eq_stableSort (List.pairwise_append.2 ⟨ascending_stableSort cmp _,
    ascending_stableSort cmp _, fun x hx y hy => ?_⟩) fun a => ?_
  · rw [(stableSort_perm _ _).mem_iff, List.mem_filter] at hx hy
    exact hcross x y hx.2 (by simpa using hy.2)
  · rw [tiedWith_append, tiedWith_stableSort, tiedWith_stableSort]
    -- all elements that are tied with one go to its side
    have hside : ∀ b ∈ tiedWith cmp a xs, q b = q a := fun b hb =>
      (hties a b (mem_tiedWith.1 hb).2).symm
    have hfilter : ∀ p : α → Bool, tiedWith cmp a (xs.filter p) = (tiedWith cmp a xs).filter p :=
      fun p => List.filter_comm ..
    rw [hfilter, hfilter]
    cases hq : q a with
    | true =>
      rw [List.filter_eq_self.2 fun b hb => (hside b hb).trans hq,
        List.filter_eq_nil_iff.2 fun b hb => by simp [hside b hb, hq], List.append_nil]
    | false =>
      rw [List.filter_eq_nil_iff.2 fun b hb => by simp [hside b hb, hq],
        List.filter_eq_self.2 fun b hb => by simp [hside b hb, hq], List.nil_append]

end Order

/-! ### By pivots -/

section Pivot

variable {xs : List α} {i : Fin xs.length} {left right : List α}

/-- **A list sorted in two parts**, of what is less than a pivot and what is not. -/
theorem sortOf_part (hleft : SortOf cmp (part (fun x => lessBy cmp x (xs.get i)) false xs i).1 left)
    (hright : SortOf cmp (part (fun x => lessBy cmp x (xs.get i)) false xs i).2 right) :
    SortOf cmp xs (left ++ right) where
  perm := (hleft.perm.append hright.perm).trans (part_perm ..)
  eq_stableSort hcmp := by
    have hpart : part (fun x => lessBy cmp x (xs.get i)) false xs i = _ :=
      part_eq_filter (by simp [Std.ReflCmp.compare_self])
    rw [hpart] at hleft hright
    rw [hleft.eq_stableSort hcmp, hright.eq_stableSort hcmp]
    refine stableSort_filter (fun x y hx hy => ?_) fun a b hab => ?_
    · rw [beq_iff_eq] at hx
      rw [beq_eq_false_iff_ne] at hy
      exact not_lt_trans (Std.OrientedCmp.not_lt_of_lt hx) hy
    · rw [lessBy, Std.TransCmp.congr_left hab]

/-- Where nothing is less than the pivot, **what is equal to it** need not be sorted. -/
theorem sortOf_part_equal (hleast : Std.TransCmp cmp → ∀ x ∈ xs, ¬cmp x (xs.get i) = .lt)
    (hright : SortOf cmp (part (fun x => !lessBy cmp (xs.get i) x) true xs i).2 right) :
    SortOf cmp xs ((part (fun x => !lessBy cmp (xs.get i) x) true xs i).1 ++ right) where
  perm := (hright.perm.append_left _).trans (part_perm ..)
  eq_stableSort hcmp := by
    have hpart : part (fun x => !lessBy cmp (xs.get i) x) true xs i = _ :=
      part_eq_filter (by simp [Std.ReflCmp.compare_self])
    rw [hpart] at hright ⊢
    have hequal : (xs.filter fun x => !lessBy cmp (xs.get i) x).Pairwise
        fun a b => ¬lessBy cmp b a = true := by
      refine List.pairwise_of_forall_mem_list fun a ha b hb hlt => ?_
      have hai : ¬cmp (xs.get i) a = .lt := by simpa using (List.mem_filter.1 ha).2
      exact not_lt_trans hai (hleast hcmp b (List.mem_filter.1 hb).1) (beq_iff_eq.1 hlt)
    rw [hright.eq_stableSort hcmp]
    conv_lhs => arg 1; rw [← stableSort_of_ascending hequal]
    refine stableSort_filter (fun x y hx hy => ?_) fun a b hab => ?_
    · have hx : ¬cmp (xs.get i) x = .lt := by simpa using hx
      have hy : cmp (xs.get i) y = .lt := by simpa using hy
      exact fun hyx => hx (Std.TransCmp.lt_trans hy hyx)
    · rw [lessBy, lessBy, Std.TransCmp.congr_right hab]

end Pivot

/-- **Sorting by pivots** breaks off only if the comparison is not an order. -/
theorem sortByPivots_reliable (limit : Nat) {floor? : Option α} {xs : List α}
    (hfloor : Std.TransCmp cmp → ∀ floor ∈ floor?, ∀ x ∈ xs, ¬cmp x floor = .lt) :
    Reliable cmp (SortOf cmp xs) (sortByPivots (lessBy cmp) limit floor? xs) := by
  induction limit generalizing floor? xs with
  | zero =>
    rw [sortByPivots]
    split
    · exact sortByHalves_reliable cmp xs
    · exact sortAtOnce_reliable cmp xs
  | succ limit ih =>
    rw [sortByPivots]
    split
    · exact sortByHalves_reliable cmp xs
    dsimp only
    generalize pivotOf (lessBy cmp) xs 0 xs.length _ _ = i
    have hbelow : Std.TransCmp cmp → part (fun x => lessBy cmp x (xs.get i)) false xs i =
        (xs.filter fun x => lessBy cmp x (xs.get i), xs.filter fun x => !lessBy cmp x (xs.get i)) :=
      fun _ => part_eq_filter (by simp [Std.ReflCmp.compare_self])
    split
    case isTrue hequal =>
      have hright : Reliable cmp (SortOf cmp (part (fun x => !lessBy cmp (xs.get i) x) true xs i).2)
          (sortByPivots (lessBy cmp) limit none _) :=
        ih fun _ _ h => (Option.not_mem_none _ h).elim
      refine hright.bind fun right hright => ?_
      refine .of_kind (sortOf_part_equal (fun hcmp x hx => ?_) hright)
      rcases Bool.or_eq_true_iff.1 hequal with hequal | hequal
      · rcases floor? with - | floor
        · cases hequal
        · have hpivot : ¬cmp floor (xs.get i) = .lt := by simpa using hequal
          exact not_lt_trans hpivot (hfloor hcmp floor rfl x hx)
      · rw [hbelow hcmp, List.isEmpty_iff, List.filter_eq_nil_iff] at hequal
        exact fun hlt => hequal x hx (beq_iff_eq.2 hlt)
    case isFalse =>
      refine (ih fun hcmp floor hmem x hx => ?_).bind fun right hright =>
        (ih fun hcmp floor hmem x hx => ?_).bind fun left hleft =>
          .of_kind (sortOf_part hleft hright)
      · obtain rfl := Option.some.inj hmem
        rw [hbelow hcmp] at hx
        simpa using (List.mem_filter.1 hx).2
      · rw [hbelow hcmp] at hx
        exact hfloor hcmp floor hmem x (List.mem_filter.1 hx).1

/-! ### Runs that are sorted later -/

/-- A run is made of a part of a list: it is the part as it is, or sorted if it is in order. -/
def Run.Of (cmp : α → α → Ordering) (front : List α) (run : Run α) : Prop :=
  if run.sorted then SortOf cmp front run.elements else run.elements = front

namespace Run

variable {front front' : List α} {run run' : Run α}

theorem of_sorted {xs : List α} (h : SortOf cmp front xs) : Of cmp front ⟨xs, true⟩ :=
  h

theorem of_unsorted (xs : List α) : Of cmp xs ⟨xs, false⟩ :=
  rfl

theorem settle_reliable (h : run.Of cmp front) :
    Reliable cmp (SortOf cmp front) (run.settle (lessBy cmp)) := by
  rw [settle]
  split
  case isTrue hsorted =>
    rw [Of, if_pos hsorted] at h
    exact .of_kind h
  case isFalse hsorted =>
    rw [Of, if_neg hsorted] at h
    subst h
    exact sortByPivots_reliable _ fun _ _ hfloor => (Option.not_mem_none _ hfloor).elim

theorem join_reliable (room : Nat) (h : run.Of cmp front) (h' : run'.Of cmp front') :
    Reliable cmp (Of cmp (front ++ front')) (run.join (lessBy cmp) room run') := by
  rw [join]
  split
  case isTrue =>
    refine (settle_reliable h).bind fun left hleft => (settle_reliable h').bind
      fun right hright => .of_kind (of_sorted (hleft.merge hright))
  case isFalse hunsorted =>
    simp only [Bool.or_eq_true, not_or, Bool.not_eq_true] at hunsorted
    rw [Of, hunsorted.1.1, if_neg Bool.false_ne_true] at h
    rw [Of, hunsorted.1.2, if_neg Bool.false_ne_true] at h'
    rw [h, h']
    exact .of_kind (of_unsorted _)

end Run

variable (cmp) in
theorem sortByRuns_reliable (xs : List α) :
    Reliable cmp (SortOf cmp xs) (sortByRuns (lessBy cmp) xs) := by
  refine (cutRuns_reliable (R := Run.Of cmp) (fun _ _ h => Run.of_sorted h)
    (fun front => .of_kind (Run.of_unsorted front)) _ _ xs).bind ?_
  rintro runs ⟨parts, rfl, hruns⟩
  have hempty : Run.Of cmp [] ⟨[], true⟩ := Run.of_sorted (.stableSort cmp [])
  exact (mergeRuns_reliable (fun _ _ _ _ h h' => Run.join_reliable _ h h') _ _ hempty hruns).bind
    fun whole hwhole => Run.settle_reliable hwhole

/-! ### Any list -/

variable (cmp) in
theorem sortMembers_reliable (xs : List α) :
    Reliable cmp (SortOf cmp xs) (sortMembers (lessBy cmp) xs) := by
  rw [sortMembers]
  split_ifs
  · exact .of_kind (.stableSort cmp xs)
  · exact sortAtOnce_reliable cmp xs
  · exact sortByRuns_reliable cmp xs

/-- **A sort that does not break off neither loses nor repeats an element**, whatever the
comparison is like. -/
theorem sort_perm {cmp : α → α → Ordering} {xs ys : List α} (h : sort (lessBy cmp) xs = some ys) :
    ys.Perm xs := by
  obtain ⟨sorted, hsorted, rfl⟩ := Option.map_eq_some_iff.1 h
  have hreliable := sortMembers_reliable (fun x y : { x // x ∈ xs } => cmp x y) xs.attach
  have hmap := (hreliable.sound sorted hsorted).perm.map Subtype.val
  rwa [List.attach_map_subtype_val] at hmap

/-- **A sort by an order does not break off**, and it is stable. The comparison need be an order on
the elements of the list only. -/
theorem sort_eq_stableSort {xs : List α}
    (h : Std.TransCmp fun x y : { x // x ∈ xs } => cmp x y) :
    sort (lessBy cmp) xs = some (stableSort (lessBy cmp) xs) := by
  have hreliable := sortMembers_reliable (fun x y : { x // x ∈ xs } => cmp x y) xs.attach
  obtain ⟨sorted, hsorted⟩ := Option.ne_none_iff_exists'.1 (hreliable.ne_none h)
  have heq := (hreliable.sound sorted hsorted).eq_stableSort h
  have hmap := stableSort_map (lessBy cmp) Subtype.val xs.attach
  rw [List.attach_map_subtype_val] at hmap
  rw [sort, hsorted, heq, hmap]
  rfl

end ObjectQuery.Sorting
