import ObjectQuery.Matching
import ObjectQuery.Proofs.Report.Cells

/-!
# The rows of entries that match

Over a view, matching loses its state: an entry gives a row, or none, whatever was looked
up for the entries in front of it (`Matching.rowOf`), and the rows kept are those that
were given, up to the limit (`Matching.collected`). Over numbered entries this is a single
pass: the rows come out in the order in which the entries went in, as many as there is room
for (`Matching.collected_eq`), and all of them if there is no limit
(`Matching.gives_run_unlimited`).
-/

namespace ObjectQuery

namespace Matching

/-- The row of an entry that a view answers for, if it fulfils the condition. -/
def rowOf (view : Examiner) (r : Request) (e : Entry) : Option ResultRow :=
  match Condition.verdict (view e) r.condition with
  | .ok true => some (shownRow r.columns view e)
  | _ => none

/-- The rows kept from entries that each give a row or none, up to a limit. -/
def collected (rowOf : Entry → Option ResultRow) (limit : Option Nat) (kept : List ResultRow) :
    List Entry → List ResultRow
  | [] => kept
  | e :: rest =>
    if isSaturated limit kept then kept
    else match rowOf e with
      | some row => collected rowOf limit (insertRow row kept) rest
      | none => collected rowOf limit kept rest

/-- The row of an entry is about this entry. -/
theorem entry_of_rowOf {view : Examiner} {r : Request} {e : Entry} {row : ResultRow}
    (h : rowOf view r e = some row) : row.entry = e := by
  rw [rowOf] at h
  split at h
  · cases h
    rfl
  · cases h

/-! ### Matching gives these rows -/

section Evaluation

variable {P : Lookups → Prop} {examiner view : Examiner} {entries : List Entry}

theorem gives_showColumns (h : AnsweredBy P examiner view entries) {e : Entry}
    (he : e ∈ entries) (columns : List ResultColumn) :
    Gives P (showColumns examiner e columns) (shownColumns columns (view e)) := by
  induction columns with
  | nil => exact Gives.pure _
  | cons c rest ih =>
    have hrest : ∀ found, Gives P
        (showColumns examiner e rest >>= fun others => pure ((c.title, found) :: others))
        ((c.title, found) :: shownColumns rest (view e)) :=
      fun found => ih.bind (Gives.pure _)
    rw [showColumns, shownColumns, List.map_cons]
    refine (h e he c.path).bind ?_
    cases view e c.path with
    | ok found => exact hrest found
    | error failure => exact hrest (.notFound failure.message)

theorem gives_row? (h : AnsweredBy P examiner view entries) (r : Request) {e : Entry}
    (he : e ∈ entries) : Gives P (row? examiner r e) (rowOf view r e) := by
  have hverdict : Gives P (Condition.holds examiner (.entry e) r.condition).run
      (Condition.verdict (view e) r.condition) :=
    Condition.gives_holds r.condition (.entry e) (view e) (h e he)
  rw [row?, rowOf]
  refine hverdict.bind ?_
  cases Condition.verdict (view e) r.condition with
  | error failure => exact Gives.pure _
  | ok b =>
    cases b with
    | false => exact Gives.pure _
    | true => exact (gives_showColumns h he r.columns).bind (Gives.pure _)

theorem gives_collect (h : AnsweredBy P examiner view entries) (r : Request)
    (kept : List ResultRow) :
    Gives P (collect examiner r kept entries) (collected (rowOf view r) r.limit kept entries) := by
  induction entries generalizing kept with
  | nil => exact Gives.pure _
  | cons e rest ih =>
    have hrest : AnsweredBy P examiner view rest :=
      h.mono fun e' he' => List.mem_cons_of_mem _ he'
    rw [collect, collected]
    split
    · exact Gives.pure _
    · refine (gives_row? h r List.mem_cons_self).bind ?_
      cases rowOf view r e with
      | some row => exact ih hrest _
      | none => exact ih hrest _

end Evaluation

/-! ### Numbered entries -/

/-- Rows are put in their places by the numbers of their entries. -/
theorem insertRow_eq_place (row : ResultRow) (kept : List ResultRow) :
    insertRow row kept = Placing.place (·.entry.id) row kept := by
  induction kept with
  | nil => rfl
  | cons first rest ih => rw [insertRow, Placing.place, ih]

/-- The row of the next of numbered entries is put at the end, and stays in front of those
of the others. -/
theorem insertRow_next {e : Entry} {rest : List Entry} (hn : Numbered (e :: rest))
    {kept : List ResultRow} (hkept : ∀ r ∈ kept, ∀ e' ∈ e :: rest, r.entry.id < e'.id)
    {row : ResultRow} (hrow : row.entry = e) :
    insertRow row kept = kept ++ [row] ∧
      ∀ r ∈ kept ++ [row], ∀ e' ∈ rest, r.entry.id < e'.id := by
  subst hrow
  refine ⟨?_, fun r hr e' he' => ?_⟩
  · rw [insertRow_eq_place]
    exact Placing.place_of_lt fun r hr => hkept r hr row.entry List.mem_cons_self
  · rcases List.mem_append.1 hr with hr | hr
    · exact hkept r hr e' (List.mem_cons_of_mem _ he')
    · rw [List.mem_singleton.1 hr]
      exact (List.pairwise_cons.1 hn).1 e' he'

/-- The rows that a limit has room for behind those that are kept. -/
def withRoom (limit : Option Nat) (kept rows : List ResultRow) : List ResultRow :=
  match limit with
  | some n => rows.take (n - kept.length)
  | none => rows

theorem withRoom_of_isSaturated {limit : Option Nat} {kept : List ResultRow}
    (h : isSaturated limit kept = true) (rows : List ResultRow) :
    withRoom limit kept rows = [] := by
  cases limit with
  | none => cases h
  | some n =>
    have hfull : n ≤ kept.length := by simpa [isSaturated] using h
    rw [withRoom, Nat.sub_eq_zero_of_le hfull, List.take_zero]

theorem withRoom_cons {limit : Option Nat} {kept : List ResultRow}
    (h : ¬isSaturated limit kept = true) (row : ResultRow) (rows : List ResultRow) :
    withRoom limit kept (row :: rows) = row :: withRoom limit (kept ++ [row]) rows := by
  cases limit with
  | none => rfl
  | some n =>
    have hfree : ¬n ≤ kept.length := by simpa [isSaturated] using h
    have hroom : n - kept.length = n - (kept ++ [row]).length + 1 := by
      rw [List.length_append, List.length_singleton]
      omega
    rw [withRoom, hroom, List.take_succ_cons]
    rfl

/-- **Numbered entries give their rows one behind the other**, as many as there is room
for. -/
theorem collected_eq {rowOf : Entry → Option ResultRow}
    (hrow : ∀ e row, rowOf e = some row → row.entry = e) (limit : Option Nat)
    {entries : List Entry} (hn : Numbered entries) {kept : List ResultRow}
    (hkept : ∀ r ∈ kept, ∀ e ∈ entries, r.entry.id < e.id) :
    collected rowOf limit kept entries = kept ++ withRoom limit kept (entries.filterMap rowOf) := by
  induction entries generalizing kept with
  | nil => cases limit <;> simp [collected, withRoom]
  | cons e rest ih =>
    have hrest := (List.pairwise_cons.1 hn).2
    rw [collected]
    split
    · next hsaturated => rw [withRoom_of_isSaturated hsaturated, List.append_nil]
    · next hroom =>
      cases hrowe : rowOf e with
      | none =>
        rw [List.filterMap_cons_none hrowe]
        exact ih hrest fun r hr e' he' => hkept r hr e' (List.mem_cons_of_mem _ he')
      | some row =>
        obtain ⟨hinsert, hnext⟩ := insertRow_next hn hkept (hrow e row hrowe)
        change collected rowOf limit (insertRow row kept) rest = _
        rw [hinsert, ih hrest hnext, List.filterMap_cons_some hrowe, withRoom_cons hroom,
          List.append_assoc, List.singleton_append]

/-- Without a limit, numbered entries give all their rows. -/
theorem collected_none {rowOf : Entry → Option ResultRow}
    (hrow : ∀ e row, rowOf e = some row → row.entry = e) {entries : List Entry}
    (hn : Numbered entries) {kept : List ResultRow}
    (hkept : ∀ r ∈ kept, ∀ e ∈ entries, r.entry.id < e.id) :
    collected rowOf none kept entries = kept ++ entries.filterMap rowOf :=
  collected_eq hrow none hn hkept

/-! ### Without a limit -/

/-- The entries that fulfil a condition over a view. -/
def matching (view : Examiner) (c : Condition) (entries : List Entry) : List Entry :=
  entries.filter fun e => match Condition.verdict (view e) c with
    | .ok b => b
    | .error _ => false

theorem mem_matching {view : Examiner} {c : Condition} {entries : List Entry} {e : Entry} :
    e ∈ matching view c entries ↔ e ∈ entries ∧ Condition.verdict (view e) c = .ok true := by
  rw [matching, List.mem_filter]
  refine and_congr_right fun _ => ?_
  cases Condition.verdict (view e) c <;> simp

/-- A single pass over entries that gives something for those that fulfil a condition, and
nothing for the others. -/
theorem filterMap_eq_map_matching {α : Type} {view : Examiner} {c : Condition}
    {f : Entry → Option α} {g : Entry → α}
    (hfulfils : ∀ e, Condition.verdict (view e) c = .ok true → f e = some (g e))
    (hother : ∀ e, Condition.verdict (view e) c ≠ .ok true → f e = none) (entries : List Entry) :
    entries.filterMap f = (matching view c entries).map g := by
  induction entries with
  | nil => rfl
  | cons e rest ih =>
    rw [matching, List.filterMap_cons, List.filter_cons, ih]
    cases hverdict : Condition.verdict (view e) c with
    | error failure =>
      rw [hother e (by rw [hverdict]; nofun)]
      rfl
    | ok b =>
      cases b with
      | false =>
        rw [hother e (by rw [hverdict]; nofun)]
        rfl
      | true =>
        rw [hfulfils e hverdict]
        rfl

theorem filterMap_rowOf (view : Examiner) (r : Request) (entries : List Entry) :
    entries.filterMap (rowOf view r) =
      (matching view r.condition entries).map (shownRow r.columns view) := by
  refine filterMap_eq_map_matching (fun e h => ?_) (fun e h => ?_) entries
  · rw [rowOf, h]
  · rw [rowOf]
    split
    · next hfulfils => exact absurd hfulfils h
    · rfl

/-- **Matching without a limit gives a row for every entry that fulfils the condition**,
in the order of the entries. -/
theorem gives_run_unlimited {P : Lookups → Prop} {examiner view : Examiner}
    {entries : List Entry} (h : AnsweredBy P examiner view entries) (hn : Numbered entries)
    {r : Request} (hlimit : r.limit = none) :
    Gives P (run examiner r entries)
      ((matching view r.condition entries).map (shownRow r.columns view)) := by
  have hrun := gives_collect h r []
  rwa [hlimit, collected_none (fun _ _ => entry_of_rowOf) hn (by simp), List.nil_append,
    filterMap_rowOf] at hrun

end Matching

end ObjectQuery
