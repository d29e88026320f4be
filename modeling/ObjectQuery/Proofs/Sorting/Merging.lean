import ObjectQuery.Proofs.Sorting.Successive

/-!
# Merging

If the comparison is an order, merging sorted lists, from whichever end, gives the stable sort of
the two side by side. It is enough to see that what comes out is in order and has the same
elements tied with any one (`Sorting.eq_stableSort`), since a list has one sorted form only.

The merge from both ends needs more of an argument, because it counts on the two ends not
overlapping. What is drawn in front up to some point is a **cut** of the two lists
(`Sorting.Cut`): what stands before it goes in front of what stands behind it. So is what is
left when elements have been drawn at the back. Cuts of two lists are linearly ordered
(`Sorting.Cut.le`): the one that leaves fewer elements in front leaves fewer of either list.
Without an order there is no such cut, and the ends may overlap; but when they do not, no element
is lost or repeated (`Sorting.mergeEnds_perm`).
-/

namespace ObjectQuery.Sorting

variable {α : Type}

/-- One element is less than another one by a comparison. -/
abbrev lessBy (cmp : α → α → Ordering) (a b : α) : Bool :=
  cmp a b == .lt

/-- No element of a list is less than one in front of it. -/
abbrev Ascending (cmp : α → α → Ordering) (xs : List α) : Prop :=
  xs.Pairwise fun a b => ¬cmp b a = .lt

@[simp]
theorem mergeUp_nil_left (less : α → α → Bool) (ys : List α) : mergeUp less [] ys = ys :=
  List.nil_merge ys

@[simp]
theorem mergeUp_nil_right (less : α → α → Bool) (xs : List α) : mergeUp less xs [] = xs :=
  List.merge_right xs

theorem mergeUp_cons_cons (less : α → α → Bool) (x y : α) (xs ys : List α) :
    mergeUp less (x :: xs) (y :: ys) =
      if less y x then y :: mergeUp less (x :: xs) ys else x :: mergeUp less xs (y :: ys) := by
  rw [mergeUp, List.cons_merge_cons]
  cases less y x <;> rfl

section Order

variable {cmp : α → α → Ordering} [Std.TransCmp cmp] {a b c : α} {xs ys zs : List α}

theorem not_lt_trans (hab : ¬cmp b a = .lt) (hbc : ¬cmp c b = .lt) : ¬cmp c a = .lt := by
  rw [← Ordering.isGE_iff_ne_lt] at hab hbc ⊢
  exact Std.TransCmp.isGE_trans hbc hab

theorem lt_of_lt_of_not_lt (hab : cmp a b = .lt) (hbc : ¬cmp c b = .lt) : cmp a c = .lt := by
  by_contra hac
  exact not_lt_trans hbc hac hab

theorem lt_of_not_lt_of_lt (hab : ¬cmp b a = .lt) (hbc : cmp b c = .lt) : cmp a c = .lt := by
  by_contra hac
  exact not_lt_trans hac hab hbc

/-! ### The stable sort -/

/-- **What the stable sort of a list is**: a list in order with the same elements tied with any
one, in the same order. -/
theorem eq_stableSort (hys : Ascending cmp ys) (h : ∀ a, tiedWith cmp a ys = tiedWith cmp a xs) :
    ys = stableSort (lessBy cmp) xs :=
  have hsort := stablySorts_stableSort_of_transCmp cmp xs
  eq_of_ascending_of_tiedWith hys hsort.ascending fun a => (h a).trans (hsort.tiedWith_eq a).symm

variable (cmp) in
theorem ascending_stableSort (xs : List α) : Ascending cmp (stableSort (lessBy cmp) xs) :=
  (stablySorts_stableSort_of_transCmp cmp xs).ascending

variable (cmp) in
theorem tiedWith_stableSort (a : α) (xs : List α) :
    tiedWith cmp a (stableSort (lessBy cmp) xs) = tiedWith cmp a xs :=
  (stablySorts_stableSort_of_transCmp cmp xs).tiedWith_eq a

omit [Std.TransCmp cmp] in
theorem tiedWith_append (a : α) (xs ys : List α) :
    tiedWith cmp a (xs ++ ys) = tiedWith cmp a xs ++ tiedWith cmp a ys :=
  List.filter_append ..

/-! ### Merging from one end -/

theorem ascending_mergeUp (hxs : Ascending cmp xs) (hys : Ascending cmp ys) :
    Ascending cmp (mergeUp (lessBy cmp) xs ys) := by
  have hle : ∀ a b, (!lessBy cmp b a) = true ↔ ¬cmp b a = .lt := by simp
  have htrans : ∀ a b c, (!lessBy cmp b a) = true → (!lessBy cmp c b) = true →
      (!lessBy cmp c a) = true := fun a b c hab hbc =>
    (hle a c).2 (not_lt_trans ((hle a b).1 hab) ((hle b c).1 hbc))
  have htotal : ∀ a b, (!lessBy cmp b a || !lessBy cmp a b) = true := fun a b => by
    rw [Bool.or_eq_true]
    simpa only [lessBy, Bool.not_eq_true', Bool.not_eq_true] using (total_not_lt cmp).total b a
  refine (List.pairwise_merge htrans htotal xs ys ?_ ?_).imp (hle _ _).1
  · exact hxs.imp (hle _ _).2
  · exact hys.imp (hle _ _).2

/-- Merging leaves elements that are tied in their order, those of the first list in front. -/
theorem tiedWith_mergeUp (hxs : Ascending cmp xs) (a : α) :
    tiedWith cmp a (mergeUp (lessBy cmp) xs ys) = tiedWith cmp a xs ++ tiedWith cmp a ys := by
  induction xs generalizing ys with
  | nil => rw [mergeUp_nil_left]; rfl
  | cons x xs ih =>
    induction ys with
    | nil => rw [mergeUp_nil_right]; exact (List.append_nil _).symm
    | cons y ys ihy =>
      rw [mergeUp_cons_cons]
      split
      case isTrue h =>
        rw [beq_iff_eq] at h
        by_cases hy : cmp a y = .eq
        · -- nothing in the first list is tied with what is less than all of it
          have hnone : tiedWith cmp a (x :: xs) = [] := by
            refine List.filter_eq_nil_iff.2 fun z hz htied => ?_
            have hyz : cmp y z = .lt := by
              rcases List.mem_cons.1 hz with rfl | hz
              · exact h
              · exact lt_of_lt_of_not_lt h (List.rel_of_pairwise_cons hxs hz)
            rw [← Std.TransCmp.congr_left hy, beq_iff_eq.1 htied] at hyz
            cases hyz
          rw [tiedWith_cons_of_eq hy, tiedWith_cons_of_eq hy, ihy, hnone]
          rfl
        · rw [tiedWith_cons_of_ne hy, tiedWith_cons_of_ne hy, ihy]
      case isFalse h =>
        by_cases hx : cmp a x = .eq
        · rw [tiedWith_cons_of_eq hx, tiedWith_cons_of_eq hx, ih hxs.of_cons]; rfl
        · rw [tiedWith_cons_of_ne hx, tiedWith_cons_of_ne hx, ih hxs.of_cons]

theorem mergeUp_eq_stableSort (hxs : Ascending cmp xs) (hys : Ascending cmp ys) :
    mergeUp (lessBy cmp) xs ys = stableSort (lessBy cmp) (xs ++ ys) :=
  eq_stableSort (ascending_mergeUp hxs hys) fun a =>
    (tiedWith_mergeUp hxs a).trans (tiedWith_append a xs ys).symm

omit [Std.TransCmp cmp] in
theorem ascending_reverse (hxs : Ascending cmp xs) : Ascending (fun a b => cmp b a) xs.reverse :=
  List.pairwise_reverse.2 hxs

omit [Std.TransCmp cmp] in
theorem tiedWith_reverse (a : α) (xs : List α) :
    tiedWith cmp a xs.reverse = (tiedWith cmp a xs).reverse :=
  List.filter_reverse ..

variable (cmp) in
theorem tiedWith_swap (a : α) (xs : List α) :
    tiedWith (fun a b => cmp b a) a xs = tiedWith cmp a xs :=
  List.filter_congr fun b _ =>
    Bool.eq_iff_iff.2 (by simpa only [beq_iff_eq] using Std.OrientedCmp.eq_comm)

/-- **Merging from the back** comes to the same as merging from the front. -/
theorem mergeDown_eq_stableSort (hxs : Ascending cmp xs) (hys : Ascending cmp ys) :
    mergeDown (lessBy cmp) xs ys = stableSort (lessBy cmp) (xs ++ ys) := by
  refine eq_stableSort (List.pairwise_reverse.2 ?_) fun a => ?_
  · exact ascending_mergeUp (ascending_reverse hys) (ascending_reverse hxs)
  · have htied : tiedWith (fun a b => cmp b a) a
        (mergeUp (fun x y => lessBy cmp y x) ys.reverse xs.reverse) = _ :=
      tiedWith_mergeUp (ascending_reverse hys) a
    rw [tiedWith_swap cmp, tiedWith_swap cmp, tiedWith_swap cmp] at htied
    rw [mergeDown, tiedWith_reverse, htied, tiedWith_reverse, tiedWith_reverse, List.reverse_append,
      List.reverse_reverse, List.reverse_reverse, tiedWith_append]

end Order

/-! ### Drawing from the fronts -/

theorem mergeUp_perm (less : α → α → Bool) (xs ys : List α) :
    (mergeUp less xs ys).Perm (xs ++ ys) :=
  List.merge_perm_append _

theorem mergeDown_perm (less : α → α → Bool) (xs ys : List α) :
    (mergeDown less xs ys).Perm (xs ++ ys) := by
  refine (List.reverse_perm _).trans ((mergeUp_perm _ _ _).trans ?_)
  rw [← List.reverse_append]
  exact List.reverse_perm _

theorem draw_cons_cons (less : α → α → Bool) (n : Nat) (x y : α) (xs ys : List α) :
    draw less (n + 1) (x :: xs) (y :: ys) =
      if less y x then
        (y :: (draw less n (x :: xs) ys).1, (draw less n (x :: xs) ys).2)
      else (x :: (draw less n xs (y :: ys)).1, (draw less n xs (y :: ys)).2 + 1) :=
  rfl

/-- **What is drawn** is a merge of the fronts of the two lists. -/
theorem draw_eq_mergeUp (less : α → α → Bool) {n : Nat} {xs ys : List α} (hxs : n ≤ xs.length)
    (hys : n ≤ ys.length) :
    ∃ i j, i + j = n ∧ draw less n xs ys = (mergeUp less (xs.take i) (ys.take j), i) := by
  induction n generalizing xs ys with
  | zero => exact ⟨0, 0, rfl, by simp [draw]⟩
  | succ n ih =>
    rcases xs with - | ⟨x, xs⟩
    · simp at hxs
    rcases ys with - | ⟨y, ys⟩
    · simp at hys
    rw [draw_cons_cons]
    split
    case isTrue h =>
      obtain ⟨i, j, hij, hdraw⟩ := ih (Nat.le_of_succ_le hxs) (Nat.le_of_succ_le_succ hys)
      refine ⟨i, j + 1, congrArg Nat.succ hij, ?_⟩
      rw [hdraw]
      rcases i with - | i
      · simp
      · rw [List.take_succ_cons, List.take_succ_cons, mergeUp_cons_cons, if_pos h]
    case isFalse h =>
      obtain ⟨i, j, hij, hdraw⟩ := ih (Nat.le_of_succ_le_succ hxs) (Nat.le_of_succ_le hys)
      refine ⟨i + 1, j, by omega, ?_⟩
      rw [hdraw]
      rcases j with - | j
      · simp
      · rw [List.take_succ_cons, List.take_succ_cons, mergeUp_cons_cons, if_neg h]

/-! ### Merging from both ends -/

/-- **What a merge from both ends comes to**: a merge of the fronts, what is left over of the first
list, what is left over of the second one, and a merge of the ends. -/
theorem mergeEnds_eq (less : α → α → Bool) {xs ys : List α} (h : xs.length ≤ ys.length) :
    ∃ i i' j j', i + i' = xs.length ∧ j ≤ xs.length ∧ j' + j = ys.length ∧
      (draw less xs.length xs ys).2 = i ∧
      (draw (fun x y => less y x) xs.length ys.reverse xs.reverse).2 = j ∧
      mergeEnds less xs ys =
        if i ≤ j ∧ i' ≤ j' then
          some (mergeUp less (xs.take i) (ys.take i') ++ (xs.take j).drop i ++
            (ys.take j').drop i' ++ mergeDown less (xs.drop j) (ys.drop j'))
        else none := by
  have hxs : xs.length ≤ xs.reverse.length := List.length_reverse.ge
  have hys : xs.length ≤ ys.reverse.length := by rwa [List.length_reverse]
  obtain ⟨i, i', hi, hfront⟩ := draw_eq_mergeUp less le_rfl h
  obtain ⟨j, k, hj, hback⟩ := draw_eq_mergeUp (fun x y => less y x) hys hxs
  refine ⟨i, i', j, ys.length - j, hi, by omega, by omega, ?_, ?_, ?_⟩
  · rw [hfront]
  · rw [hback]
  · have hk : xs.length - k = j := by omega
    have hi' : xs.length - i = i' := by omega
    simp only [mergeEnds, hfront, hback, mergeDown, List.take_reverse, hk, hi']

theorem perm_append_append {xs xs' xs'' ys ys' ys'' front back : List α}
    (hfront : front.Perm (xs ++ ys)) (hback : back.Perm (xs'' ++ ys'')) :
    (front ++ xs' ++ ys' ++ back).Perm ((xs ++ xs' ++ xs'') ++ (ys ++ ys' ++ ys'')) := by
  classical
  rw [List.perm_iff_count] at hfront hback ⊢
  intro a
  have hfronta := hfront a
  have hbacka := hback a
  simp only [List.count_append] at hfronta hbacka ⊢
  omega

/-- A merge from both ends that does not break off neither loses nor repeats an element. -/
theorem mergeEnds_perm {less : α → α → Bool} {xs ys zs : List α} (h : xs.length ≤ ys.length)
    (hzs : mergeEnds less xs ys = some zs) : zs.Perm (xs ++ ys) := by
  obtain ⟨i, i', j, j', -, -, -, -, -, hmerge⟩ := mergeEnds_eq less h
  rw [hmerge] at hzs
  split at hzs
  case isFalse => cases hzs
  case isTrue hfit =>
    obtain ⟨hi, hi'⟩ := hfit
    have hcut : ∀ (zs : List α) {i j : Nat}, i ≤ j →
        zs = zs.take i ++ (zs.take j).drop i ++ zs.drop j := by
      intro zs i j hij
      conv_lhs => rw [← List.take_append_drop j zs, ← List.take_append_drop i (zs.take j),
        List.take_take, min_eq_left hij]
    obtain rfl := Option.some.inj hzs
    conv_rhs => rw [hcut xs hi, hcut ys hi']
    exact perm_append_append (mergeUp_perm _ _ _) (mergeDown_perm _ _ _)

/-! ### Cuts -/

/-- A cut of two lists: each element of the first list in front of it goes in front of each of the
second list behind it, and the other way round. -/
structure Cut (cmp : α → α → Ordering) (xs ys : List α) (i j : Nat) : Prop where
  first : ∀ x ∈ xs.take i, ∀ y ∈ ys.drop j, ¬cmp y x = .lt
  second : ∀ y ∈ ys.take j, ∀ x ∈ xs.drop i, cmp y x = .lt

/-- A merge can be made in two parts. -/
theorem mergeUp_append (less : α → α → Bool) {xs xs' ys ys' : List α}
    (hfirst : ∀ x ∈ xs, ∀ y ∈ ys', ¬less y x = true)
    (hsecond : ∀ y ∈ ys, ∀ x ∈ xs', less y x = true) :
    mergeUp less (xs ++ xs') (ys ++ ys') = mergeUp less xs ys ++ mergeUp less xs' ys' := by
  induction xs generalizing ys with
  | nil =>
    induction ys with
    | nil => simp only [mergeUp_nil_left, List.nil_append]
    | cons y ys ihy =>
      have hys := ihy fun z hz => hsecond z (List.mem_cons_of_mem _ hz)
      rw [mergeUp_nil_left] at hys ⊢
      rcases xs' with - | ⟨x, xs'⟩
      · simp only [List.nil_append, mergeUp_nil_left]
      · rw [List.nil_append, List.cons_append, mergeUp_cons_cons,
          if_pos (hsecond y List.mem_cons_self x List.mem_cons_self)]
        exact congrArg (y :: ·) hys
  | cons x xs ih =>
    have hxs : ∀ z ∈ xs, ∀ y ∈ ys', ¬less y z = true :=
      fun z hz => hfirst z (List.mem_cons_of_mem _ hz)
    induction ys with
    | nil =>
      have hxs := ih hxs hsecond
      rw [mergeUp_nil_right] at hxs ⊢
      rcases ys' with - | ⟨y, ys'⟩
      · simp only [List.append_nil, mergeUp_nil_right]
      · rw [List.nil_append, List.cons_append, mergeUp_cons_cons,
          if_neg (hfirst x List.mem_cons_self y List.mem_cons_self)]
        exact congrArg (x :: ·) hxs
    | cons y ys ihy =>
      rw [List.cons_append, List.cons_append, mergeUp_cons_cons, mergeUp_cons_cons]
      split
      · exact congrArg (y :: ·) (ihy fun z hz => hsecond z (List.mem_cons_of_mem _ hz))
      · exact congrArg (x :: ·) (ih hxs hsecond)

section Order

variable {cmp : α → α → Ordering} {xs ys : List α} {i j i' j' : Nat}

theorem Cut.not_crossing (h : Cut cmp xs ys i j) (h' : Cut cmp xs ys i' j') (hi : i' < i)
    (hxs : i ≤ xs.length) (hys : j' ≤ ys.length) : j' ≤ j := by
  by_contra! hj
  refine h.first xs[i'] ?_ ys[j] ?_ (h'.second ys[j] ?_ xs[i'] ?_)
  · exact List.mem_take_iff_getElem.2 ⟨i', by omega, rfl⟩
  · exact List.mem_drop_iff_getElem.2 ⟨0, by omega, rfl⟩
  · exact List.mem_take_iff_getElem.2 ⟨j, by omega, rfl⟩
  · exact List.mem_drop_iff_getElem.2 ⟨0, by omega, rfl⟩

/-- **Cuts are linearly ordered**: the one with fewer elements in front of it has fewer of either
list in front of it. -/
theorem Cut.le (h : Cut cmp xs ys i j) (h' : Cut cmp xs ys i' j') (hle : i + j ≤ i' + j')
    (hxs : i ≤ xs.length) (hxs' : i' ≤ xs.length) (hys : j ≤ ys.length) (hys' : j' ≤ ys.length) :
    i ≤ i' ∧ j ≤ j' := by
  constructor
  · by_contra! hi
    have hj := h.not_crossing h' hi hxs hys'
    omega
  · by_contra! hj
    have hj' := h'.not_crossing h (by omega) hxs' hys
    omega

theorem Cut.drop (h : Cut cmp xs ys i' j') (hi : i ≤ i') (hj : j ≤ j') :
    Cut cmp (xs.drop i) (ys.drop j) (i' - i) (j' - j) where
  first x hx y hy := by
    rw [← List.drop_take] at hx
    rw [List.drop_drop, Nat.add_sub_cancel' hj] at hy
    exact h.first x (List.mem_of_mem_drop hx) y hy
  second y hy x hx := by
    rw [← List.drop_take] at hy
    rw [List.drop_drop, Nat.add_sub_cancel' hi] at hx
    exact h.second y (List.mem_of_mem_drop hy) x hx

theorem mergeUp_of_cut (h : Cut cmp xs ys i j) :
    mergeUp (lessBy cmp) xs ys = mergeUp (lessBy cmp) (xs.take i) (ys.take j) ++
      mergeUp (lessBy cmp) (xs.drop i) (ys.drop j) := by
  rw [← mergeUp_append, List.take_append_drop, List.take_append_drop]
  · exact fun x hx y hy hless => h.first x hx y hy (beq_iff_eq.1 hless)
  · exact fun y hy x hx => beq_iff_eq.2 (h.second y hy x hx)

variable [Std.TransCmp cmp]

theorem Cut.cons_second {x y : α} (h : Cut cmp (x :: xs) ys i j) (hyx : cmp y x = .lt)
    (hasc : Ascending cmp (x :: xs)) : Cut cmp (x :: xs) (y :: ys) i (j + 1) where
  first := h.first
  second z hz w hw := by
    rw [List.take_succ_cons] at hz
    rcases List.mem_cons.1 hz with rfl | hz
    · rcases List.mem_cons.1 (List.mem_of_mem_drop hw) with rfl | hw
      · exact hyx
      · exact lt_of_lt_of_not_lt hyx (List.rel_of_pairwise_cons hasc hw)
    · exact h.second z hz w hw

theorem Cut.cons_first {x y : α} (h : Cut cmp xs (y :: ys) i j) (hyx : ¬cmp y x = .lt)
    (hasc : Ascending cmp (y :: ys)) : Cut cmp (x :: xs) (y :: ys) (i + 1) j where
  first z hz w hw := by
    rw [List.take_succ_cons] at hz
    rcases List.mem_cons.1 hz with rfl | hz
    · rcases List.mem_cons.1 (List.mem_of_mem_drop hw) with rfl | hw
      · exact hyx
      · exact not_lt_trans hyx (List.rel_of_pairwise_cons hasc hw)
    · exact h.first z hz w hw
  second := h.second

/-- **Where drawing stops there is a cut.** -/
theorem cut_draw (hascx : Ascending cmp xs) (hascy : Ascending cmp ys) {n : Nat}
    (hxs : n ≤ xs.length) (hys : n ≤ ys.length) (hij : i + j = n)
    (hi : (draw (lessBy cmp) n xs ys).2 = i) : Cut cmp xs ys i j := by
  induction n generalizing xs ys i j with
  | zero =>
    obtain ⟨rfl, rfl⟩ : i = 0 ∧ j = 0 := by omega
    exact ⟨by simp, by simp⟩
  | succ n ih =>
    rcases xs with - | ⟨x, xs⟩
    · simp at hxs
    rcases ys with - | ⟨y, ys⟩
    · simp at hys
    rw [draw_cons_cons] at hi
    split at hi
    case isTrue hyx =>
      obtain ⟨k, l, hkl, hdraw⟩ :=
        draw_eq_mergeUp (lessBy cmp) (Nat.le_of_succ_le hxs) (Nat.le_of_succ_le_succ hys)
      rw [hdraw] at hi
      obtain ⟨rfl, rfl⟩ : k = i ∧ l + 1 = j := ⟨hi, by dsimp only at hi; omega⟩
      have hcut := ih hascx hascy.of_cons (Nat.le_of_succ_le hxs) (Nat.le_of_succ_le_succ hys) hkl
        (congrArg Prod.snd hdraw)
      exact hcut.cons_second (beq_iff_eq.1 hyx) hascx
    case isFalse hyx =>
      obtain ⟨k, l, hkl, hdraw⟩ :=
        draw_eq_mergeUp (lessBy cmp) (Nat.le_of_succ_le_succ hxs) (Nat.le_of_succ_le hys)
      rw [hdraw] at hi
      obtain ⟨rfl, rfl⟩ : k + 1 = i ∧ l = j := ⟨hi, by dsimp only at hi; omega⟩
      have hcut := ih hascx.of_cons hascy (Nat.le_of_succ_le_succ hxs) (Nat.le_of_succ_le hys) hkl
        (congrArg Prod.snd hdraw)
      exact hcut.cons_first (fun hlt => hyx (beq_iff_eq.2 hlt)) hascy

omit [Std.TransCmp cmp] in
/-- What is left when elements have been drawn at the back is the front of a cut. -/
theorem Cut.of_reverse (h : Cut (fun a b => cmp b a) ys.reverse xs.reverse j i) :
    Cut cmp xs ys (xs.length - i) (ys.length - j) where
  first x hx y hy := by
    refine h.first y ?_ x ?_
    · rwa [List.take_reverse, List.mem_reverse]
    · rwa [List.drop_reverse, List.mem_reverse]
  second y hy x hx := by
    refine h.second x ?_ y ?_
    · rwa [List.take_reverse, List.mem_reverse]
    · rwa [List.drop_reverse, List.mem_reverse]

/-- **A merge from both ends** of sorted lists does not break off, and comes to the same as a merge
from one end. -/
theorem mergeEnds_eq_stableSort (hascx : Ascending cmp xs) (hascy : Ascending cmp ys)
    (hle : xs.length ≤ ys.length) (hge : ys.length ≤ xs.length + 1) :
    mergeEnds (lessBy cmp) xs ys = some (stableSort (lessBy cmp) (xs ++ ys)) := by
  obtain ⟨i, i', j, j', hi, hj, hj', hdraw, hdraw', hmerge⟩ := mergeEnds_eq (lessBy cmp) hle
  have hcut : Cut cmp xs ys i i' := cut_draw hascx hascy le_rfl hle hi hdraw
  have hcut' : Cut cmp xs ys j j' := by
    have hxs : xs.length ≤ xs.reverse.length := List.length_reverse.ge
    have hys : xs.length ≤ ys.reverse.length := by rwa [List.length_reverse]
    have hreverse : Cut (fun a b => cmp b a) ys.reverse xs.reverse j (xs.length - j) :=
      cut_draw (ascending_reverse hascy) (ascending_reverse hascx) hys hxs (by omega) hdraw'
    have hcut := hreverse.of_reverse
    rwa [show xs.length - (xs.length - j) = j by omega, show ys.length - j = j' by omega] at hcut
  obtain ⟨hij, hij'⟩ := hcut.le hcut' (by omega) (by omega) hj (by omega) (by omega)
  rw [hmerge, if_pos ⟨hij, hij'⟩, Option.some_inj, ← mergeUp_eq_stableSort hascx hascy,
    mergeUp_of_cut hcut, mergeUp_of_cut (hcut'.drop hij hij'), List.drop_drop, List.drop_drop,
    Nat.add_sub_cancel' hij, Nat.add_sub_cancel' hij', ← List.drop_take, ← List.drop_take]
  -- between the ends one element is left over at most, which stands alone on its side
  have hmiddle : mergeUp (lessBy cmp) ((xs.take j).drop i) ((ys.take j').drop i') =
      (xs.take j).drop i ++ (ys.take j').drop i' := by
    rcases (by omega : j = i ∨ j' = i') with rfl | rfl
    · rw [List.drop_take_self, mergeUp_nil_left, List.nil_append]
    · rw [List.drop_take_self, mergeUp_nil_right, List.append_nil]
  have hends := mergeUp_eq_stableSort (hascx.drop (i := j)) (hascy.drop (i := j'))
  rw [hmiddle, hends, ← mergeDown_eq_stableSort hascx.drop hascy.drop]
  simp only [List.append_assoc]

end Order

end ObjectQuery.Sorting
