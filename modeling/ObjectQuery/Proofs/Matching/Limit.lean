import ObjectQuery.Proofs.Matching.Rows

/-!
# Matching up to a limit

Once as many rows are kept as the limit allows, no further entry is looked at. Over numbered
entries the rows kept by then are the first of those that matching gives without a limit
(`Matching.collected_some`). And the entries behind the one that took the last place might as
well not be there: without them matching comes to the same rows, from the same state to the
same state (`Matching.run_upTo`).
-/

namespace ObjectQuery

/-- Numbered entries, cut behind a number. -/
theorem Numbered.eq_filter_append_filter {entries : List Entry} (h : Numbered entries) (m : Nat) :
    entries = entries.filter (·.id ≤ m) ++ entries.filter (m < ·.id) := by
  refine h.eq_of_mem_iff ?_ fun e => ?_
  · refine List.pairwise_append.2 ⟨h.filter _, h.filter _, fun e he e' he' => ?_⟩
    have hle : e.id ≤ m := by simpa using (List.mem_filter.1 he).2
    have hlt : m < e'.id := by simpa using (List.mem_filter.1 he').2
    omega
  · have hcut : e.id ≤ m ∨ m < e.id := by omega
    simp [← and_or_left, hcut]

namespace Matching

/-- **Up to a limit, numbered entries give the first of their rows.** -/
theorem collected_some {rowOf : Entry → Option ResultRow}
    (hrow : ∀ e row, rowOf e = some row → row.entry = e) (n : Nat) {entries : List Entry}
    (hn : Numbered entries) :
    collected rowOf (some n) [] entries = (entries.filterMap rowOf).take n :=
  collected_eq hrow (some n) hn (by simp)

/-! ### Entries that are not looked at -/

variable {examiner view : Examiner} {r : Request}

/-- Without room for a row, no entry is looked at. -/
theorem collect_of_isSaturated {kept : List ResultRow} (h : isSaturated r.limit kept = true)
    (entries : List Entry) : collect examiner r kept entries = pure kept := by
  cases entries with
  | nil => rfl
  | cons e rest => rw [collect, if_pos h]

/-- Entries may be matched in two parts. -/
theorem collect_append (kept : List ResultRow) (entries entries' : List Entry) :
    collect examiner r kept (entries ++ entries') =
      collect examiner r kept entries >>= fun kept' => collect examiner r kept' entries' := by
  induction entries generalizing kept with
  | nil => rfl
  | cons e rest ih =>
    rw [List.cons_append, collect, collect]
    split
    · next h => exact (collect_of_isSaturated h entries').symm
    · rw [bind_assoc]
      refine congrArg (row? examiner r e >>= ·) (funext fun row? => ?_)
      cases row? with
      | some row => exact ih _
      | none => exact ih _

/-- The row in a place of a numbered list is given by the entries up to its own. -/
theorem length_filterMap_upTo {rowOf : Entry → Option ResultRow}
    (hrow : ∀ e row, rowOf e = some row → row.entry = e) {entries : List Entry}
    (hn : Numbered entries) {i : Nat} {last : ResultRow}
    (h : (entries.filterMap rowOf)[i]? = some last) :
    i < ((entries.filter (·.id ≤ last.entry.id)).filterMap rowOf).length := by
  rw [hn.eq_filter_append_filter last.entry.id, List.filterMap_append] at h
  refine Nat.lt_of_not_le fun hlength => ?_
  rw [List.getElem?_append_right hlength] at h
  -- no row of the entries behind is about the entry of the row itself
  obtain ⟨e, he, hrowe⟩ := List.mem_filterMap.1 (List.mem_of_getElem? h)
  have hlt : last.entry.id < e.id := by simpa using (List.mem_filter.1 he).2
  rw [hrow e last hrowe] at hlt
  exact Nat.lt_irrefl _ hlt

/-- **Entries behind the last row are not looked at.** Where the limit is reached with a row,
matching the entries up to its own is all that is done. -/
theorem run_upTo {P : Lookups → Prop} {entries : List Entry}
    (h : AnsweredBy P examiner view entries) (hn : Numbered entries) {n : Nat}
    (hlimit : r.limit = some (n + 1)) {last : ResultRow}
    (hlast : (entries.filterMap (rowOf view r))[n]? = some last) {l : Lookups} (hl : P l) :
    (run examiner r entries).run l =
      (run examiner r (entries.filter (·.id ≤ last.entry.id))).run l := by
  have hrow : ∀ e row, rowOf view r e = some row → row.entry = e := fun _ _ => entry_of_rowOf
  have hanswered : AnsweredBy P examiner view (entries.filter (·.id ≤ last.entry.id)) :=
    h.mono fun _ he => (List.mem_filter.1 he).1
  have hfront := (gives_collect hanswered r [] l hl).1
  have hlength := length_filterMap_upTo hrow hn hlast
  rcases hrun : (collect examiner r [] (entries.filter (·.id ≤ last.entry.id))).run l with
    ⟨kept, l'⟩
  rw [hrun, hlimit, collected_some hrow _ (hn.filter _)] at hfront
  have hkept : kept.length = n + 1 := by
    change kept = _ at hfront
    rw [hfront, List.length_take]
    omega
  -- the limit is reached with the last row, and nothing behind it is looked at
  have hsaturated : isSaturated r.limit kept = true := by
    rw [hlimit, isSaturated, hkept]
    exact decide_eq_true (Nat.le_refl _)
  have hcut : run examiner r entries = collect examiner r []
      (entries.filter (·.id ≤ last.entry.id) ++ entries.filter (last.entry.id < ·.id)) := by
    rw [← hn.eq_filter_append_filter]
    rfl
  rw [hcut, collect_append, run_bind_of_run hrun, collect_of_isSaturated hsaturated, run, hrun]
  rfl

end Matching

end ObjectQuery
