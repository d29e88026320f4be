import ObjectQuery.Proofs.Sorting.Halves

/-!
# Sorting by runs

A list that is cut into runs (`Sorting.cutRuns_reliable`) is made whole again when the runs are
merged (`Sorting.mergeRuns_reliable`). What a run is does not matter for this. All that is used
is a relation between a part of the list and the run made of it, which is kept when two runs
that lie side by side are joined. The runs that wait to be joined are a stack, and its invariant
is that they are made of the parts in front of the current one, in turn (`Sorting.Stacked`).

In which order runs are joined makes no difference, so nothing is proved of the tree that it
comes from. It matters only that at the end, at depth zero, none is left waiting.
-/

namespace ObjectQuery.Sorting

variable {α ρ : Type} {cmp : α → α → Ordering}

/-! ### Natural runs -/

/-- Neighbours in what has been followed are as they should be. -/
theorem isChain_follow (goesOn : α → α → Bool) (x : α) (xs : List α) :
    (x :: (follow goesOn x xs).1).IsChain fun a b => goesOn a b = true := by
  induction xs generalizing x with
  | nil => exact .singleton x
  | cons y ys ih =>
    rw [follow]
    split
    case isTrue h => exact .cons_cons h (ih y)
    case isFalse => exact .singleton x

/-- A list in descending order has no ties, so that it can be turned round. -/
theorem stableSort_reverse [Std.TransCmp cmp] {xs : List α}
    (h : xs.Pairwise fun a b => cmp b a = .lt) : xs.reverse = stableSort (lessBy cmp) xs := by
  refine eq_stableSort (List.pairwise_reverse.2 (h.imp Std.OrientedCmp.not_lt_of_lt)) fun a => ?_
  -- at most one element is tied with a given one
  have hties : (tiedWith cmp a xs).Pairwise fun b c => cmp c b = .lt := h.filter _
  rw [tiedWith_reverse]
  rcases htied : tiedWith cmp a xs with - | ⟨b, - | ⟨c, rest⟩⟩
  · rfl
  · rfl
  · have hmem : ∀ d ∈ [b, c], cmp a d = .eq := by
      intro d hd
      have htie : d ∈ tiedWith cmp a xs := htied ▸ List.mem_append_left rest hd
      exact (mem_tiedWith.1 htie).2
    rw [htied] at hties
    have hlt := List.rel_of_pairwise_cons hties List.mem_cons_self
    rw [← Std.TransCmp.congr_left (hmem c (by simp)), hmem b (by simp)] at hlt
    cases hlt

variable (cmp) in
/-- **A natural run** is the part that it takes, in order. -/
theorem naturalRun_sortOf (x : α) (xs : List α) :
    ∃ front, front ++ (naturalRun (lessBy cmp) x xs).2 = x :: xs ∧
      SortOf cmp front (naturalRun (lessBy cmp) x xs).1 := by
  obtain ⟨descends, hdescends⟩ : ∃ b, b = xs.head?.any fun y => lessBy cmp y x := ⟨_, rfl⟩
  have hchain := isChain_follow (fun x y => lessBy cmp y x == descends) x xs
  have hrun : naturalRun (lessBy cmp) x xs =
      (if descends then (x :: (follow (fun x y => lessBy cmp y x == descends) x xs).1).reverse
        else x :: (follow (fun x y => lessBy cmp y x == descends) x xs).1,
      (follow (fun x y => lessBy cmp y x == descends) x xs).2) := by
    rw [hdescends]
    rfl
  rw [hrun]
  refine ⟨x :: (follow (fun x y => lessBy cmp y x == descends) x xs).1,
    congrArg (x :: ·) (follow_append _ x xs), ?_⟩
  cases descends with
  | false =>
    refine ⟨.refl _, fun hcmp => (eq_stableSort ?_ fun _ => rfl)⟩
    have : Trans (fun a b => ¬cmp b a = .lt) (fun a b => ¬cmp b a = .lt)
      fun a b => ¬cmp b a = .lt := ⟨not_lt_trans⟩
    exact (hchain.imp fun a b h => by simpa using h).pairwise
  | true =>
    refine ⟨List.reverse_perm _, fun hcmp => stableSort_reverse ?_⟩
    have : Trans (fun a b => cmp b a = .lt) (fun a b => cmp b a = .lt)
      fun a b => cmp b a = .lt := ⟨fun hab hbc => Std.TransCmp.lt_trans hbc hab⟩
    exact (hchain.imp fun a b h => by simpa using h).pairwise

/-! ### Cutting -/

section Runs

variable {R : List α → ρ → Prop}

/-- **Cutting a list into runs** leaves nothing out. -/
theorem cutRuns_reliable {natural : List α → ρ} {other : List α → Option ρ}
    (hnatural : ∀ front run, SortOf cmp front run → R front (natural run))
    (hother : ∀ front, Reliable cmp (R front) (other front)) (good size : Nat) (xs : List α) :
    Reliable cmp (fun runs => ∃ parts, parts.flatten = xs ∧ List.Forall₂ R parts runs)
      (cutRuns (lessBy cmp) natural other good size xs) := by
  induction xs using cutRuns.induct (lessBy cmp) good size with
  | case1 =>
    rw [cutRuns]
    exact .of_kind ⟨[], rfl, .nil⟩
  | case2 x xs hgood ih =>
    obtain ⟨front, happend, hfront⟩ := naturalRun_sortOf cmp x xs
    rw [cutRuns, if_pos hgood]
    refine ih.bind ?_
    rintro runs ⟨parts, hparts, hruns⟩
    refine .of_kind ⟨front :: parts, ?_, .cons (hnatural front _ hfront) hruns⟩
    rw [List.flatten_cons, hparts, happend]
  | case3 x xs hgood ih =>
    rw [cutRuns, if_neg hgood]
    refine (hother _).bind fun run hrun => ih.bind ?_
    rintro runs ⟨parts, hparts, hruns⟩
    refine .of_kind ⟨(x :: xs.take (size - 1)) :: parts, ?_, .cons hrun hruns⟩
    rw [List.flatten_cons, hparts, List.cons_append, List.take_append_drop]

/-! ### Merging -/

/-- The runs in front of a place, the last of which comes first, are made of the parts in front of
it. -/
inductive Stacked (R : List α → ρ → Prop) : List α → List (ρ × Nat) → Prop
  | nil : Stacked R [] []
  | cons {front part : List α} {stack : List (ρ × Nat)} {run : ρ} (depth : Nat)
      (hfront : Stacked R front stack) (hrun : R part run) :
      Stacked R (front ++ part) ((run, depth) :: stack)

variable {join : ρ → ρ → Option ρ}
  (hjoin : ∀ part part' run run', R part run → R part' run' →
    Reliable cmp (R (part ++ part')) (join run run'))

include hjoin

/-- **Joining a run with those that wait** leaves out nothing of what is in front. -/
theorem collapse_reliable (depth : Nat) {front part : List α} {stack : List (ρ × Nat)} {run : ρ}
    (hfront : Stacked R front stack) (hrun : R part run) :
    Reliable cmp
      (fun out => ∃ front' part', front' ++ part' = front ++ part ∧ Stacked R front' out.1 ∧
        R part' out.2 ∧ (depth = 0 → front' = []))
      (collapse join depth stack run) := by
  induction hfront generalizing part run with
  | nil => exact .of_kind ⟨[], part, rfl, .nil, hrun, fun _ => rfl⟩
  | @cons front part' stack left d hfront hleft ih =>
    rw [collapse]
    split
    case isTrue =>
      refine (hjoin _ _ _ _ hleft hrun).bind fun joined hjoined => ?_
      rw [List.append_assoc]
      exact ih hjoined
    case isFalse hdepth =>
      -- nothing stays behind at depth zero
      exact .of_kind ⟨_, part, rfl, .cons d hfront hleft, hrun, fun h => (hdepth (by omega)).elim⟩

theorem mergeFrom_reliable (length : ρ → Nat) (n start : Nat) {front part : List α}
    {parts : List (List α)} {stack : List (ρ × Nat)} {run : ρ} {rest : List ρ}
    (hfront : Stacked R front stack) (hrun : R part run) (hrest : List.Forall₂ R parts rest) :
    Reliable cmp (R (front ++ part ++ parts.flatten))
      (mergeFrom length join n stack start run rest) := by
  induction hrest generalizing front part stack start run with
  | nil =>
    rw [mergeFrom, List.flatten_nil, List.append_nil]
    refine (collapse_reliable hjoin 0 hfront hrun).bind ?_
    rintro out ⟨front', part', happend, -, hwhole, hnil⟩
    rw [hnil rfl, List.nil_append] at happend
    exact .of_kind (happend ▸ hwhole)
  | cons hnext _ ih =>
    rw [mergeFrom, List.flatten_cons, ← List.append_assoc]
    refine (collapse_reliable hjoin _ hfront hrun).bind ?_
    rintro out ⟨front', part', happend, hfront', hpart', -⟩
    rw [← happend]
    exact ih _ (.cons _ hfront' hpart') hnext

/-- **Merging the runs of a list** makes a run of the whole list. -/
theorem mergeRuns_reliable (length : ρ → Nat) (n : Nat) {empty : ρ} (hempty : R [] empty)
    {parts : List (List α)} {runs : List ρ} (hruns : List.Forall₂ R parts runs) :
    Reliable cmp (R parts.flatten) (mergeRuns length join n empty runs) := by
  cases hruns with
  | nil => exact .of_kind hempty
  | cons hrun hrest =>
    exact mergeFrom_reliable hjoin length n 0 .nil hrun hrest

end Runs

end ObjectQuery.Sorting
