import ObjectQuery.Proofs.Condition.Reached
import ObjectQuery.Proofs.Lookup.Fresh
import ObjectQuery.Proofs.Matching.Limit

/-!
# Entries in another order

Matching without a limit goes through all of its entries. What an entry is asked for, and what
of it reaches the examiner, depends on what is kept for its number (`Matching.run_row?`). If the
entries have different numbers, that is what was kept at the start: no entry, whether it
matches, fails to match or cannot be tested, leaves a trace that another one could see
(`Matching.given_of_nodup`). So the rows and the questions of a run are those of its entries one
by one, and in another order of the entries they are the same up to order
(`Matching.run_perm`). The rows come out by number in any case (`Matching.Ascending.merge`).

Two runs, the second from the state that the first one leaves, are one run over all of the
entries, whatever their numbers: the rows of the second are put in their places among those of
the first (`Matching.run_append`). The two facts together are `Matching.run_in_any_order`.
-/

namespace ObjectQuery

namespace Matching

/-! ### Rows in their places -/

/-- The numbers of the entries of rows. -/
def numbers (rows : List ResultRow) : List Nat :=
  rows.map (·.entry.id)

/-- Rows put one after another in their places among others. -/
def merge (kept rows : List ResultRow) : List ResultRow :=
  rows.foldl (fun kept row => insertRow row kept) kept

/-- Rows that ascend by the numbers of their entries. -/
def Ascending (rows : List ResultRow) : Prop :=
  rows.Pairwise fun row row' => row.entry.id < row'.entry.id

theorem merge_append (kept rows rows' : List ResultRow) :
    merge kept (rows ++ rows') = merge (merge kept rows) rows' :=
  List.foldl_append

theorem Ascending.insertRow {kept : List ResultRow} (h : Ascending kept) (row : ResultRow) :
    Ascending (Matching.insertRow row kept) := by
  rw [insertRow_eq_place]
  exact Placing.Ascends.place h row

theorem Ascending.merge {kept : List ResultRow} (h : Ascending kept) (rows : List ResultRow) :
    Ascending (merge kept rows) := by
  induction rows generalizing kept with
  | nil => exact h
  | cons row rest ih => exact ih (h.insertRow row)

/-- Rows of different entries may be put in their places in either order. -/
theorem insertRow_comm {row row' : ResultRow} (h : row.entry.id ≠ row'.entry.id)
    (kept : List ResultRow) :
    insertRow row (insertRow row' kept) = insertRow row' (insertRow row kept) := by
  induction kept with
  | nil => grind [insertRow]
  | cons first rest ih => grind [insertRow]

/-- Of two rows of one entry the last one stays. -/
theorem insertRow_of_eq {row row' : ResultRow} (h : row.entry.id = row'.entry.id)
    (kept : List ResultRow) : insertRow row (insertRow row' kept) = insertRow row kept := by
  induction kept with
  | nil => grind [insertRow]
  | cons first rest ih => grind [insertRow]

theorem merge_insertRow_of_ne {row : ResultRow} {rows : List ResultRow}
    (h : ∀ r ∈ rows, r.entry.id ≠ row.entry.id) (kept : List ResultRow) :
    merge (insertRow row kept) rows = insertRow row (merge kept rows) := by
  induction rows generalizing kept with
  | nil => rfl
  | cons first rest ih =>
    obtain ⟨hfirst, hrest⟩ := List.forall_mem_cons.1 h
    change merge (insertRow first (insertRow row kept)) rest = _
    rw [insertRow_comm hfirst, ih hrest]
    rfl

/-- A row that has its place among others, which are put in their places, has its place among
all of them. -/
theorem merge_insertRow {rows : List ResultRow} (h : Ascending rows) (kept : List ResultRow)
    (row : ResultRow) : merge kept (insertRow row rows) = insertRow row (merge kept rows) := by
  induction rows generalizing kept with
  | nil => rfl
  | cons first rest ih =>
    obtain ⟨hfirst, hrest⟩ := List.pairwise_cons.1 h
    rw [insertRow]
    split_ifs with hlt heq
    · have hne : ∀ r ∈ first :: rest, r.entry.id ≠ row.entry.id := by
        intro r hr
        rcases List.mem_cons.1 hr with rfl | hr
        · omega
        · have := hfirst r hr
          omega
      exact merge_insertRow_of_ne hne kept
    · have hne : ∀ r ∈ rest, r.entry.id ≠ row.entry.id := by
        intro r hr
        have := hfirst r hr
        omega
      change merge (insertRow row kept) rest = insertRow row (merge (insertRow first kept) rest)
      rw [← merge_insertRow_of_ne hne, insertRow_of_eq heq]
    · exact ih hrest (insertRow first kept)

/-- **Rows may be put in their places in two parts.** -/
theorem merge_merge (kept rows : List ResultRow) :
    merge kept (merge [] rows) = merge kept rows := by
  -- carried for every part that ascends, as the part grows by one row after another
  have hmerge : ∀ acc, Ascending acc →
      merge kept (merge acc rows) = merge (merge kept acc) rows := by
    induction rows with
    | nil => exact fun acc _ => rfl
    | cons row rest ih =>
      intro acc hacc
      change merge kept (merge (insertRow row acc) rest) =
        merge (insertRow row (merge kept acc)) rest
      rw [ih _ (hacc.insertRow row), merge_insertRow hacc]
  exact hmerge [] .nil

theorem insertRow_perm {row : ResultRow} {kept : List ResultRow}
    (h : row.entry.id ∉ numbers kept) : (insertRow row kept).Perm (row :: kept) := by
  induction kept with
  | nil => exact .refl _
  | cons first rest ih =>
    obtain ⟨hne, hrest⟩ : row.entry.id ≠ first.entry.id ∧ row.entry.id ∉ numbers rest := by
      simpa [numbers] using h
    rw [insertRow]
    split_ifs with hlt
    · exact .refl _
    · exact ((ih hrest).cons first).trans (.swap row first rest)

/-- **Rows of different entries** are all there once they are put in their places. -/
theorem merge_perm {kept rows : List ResultRow} (h : (numbers (kept ++ rows)).Nodup) :
    (merge kept rows).Perm (kept ++ rows) := by
  induction rows generalizing kept with
  | nil => exact .of_eq (List.append_nil kept).symm
  | cons row rest ih =>
    have hmiddle : (kept ++ row :: rest).Perm (row :: kept ++ rest) := List.perm_middle
    have hnodup : (numbers (row :: kept ++ rest)).Nodup := (hmiddle.map _).nodup_iff.1 h
    have hfresh : row.entry.id ∉ numbers kept := by
      intro hmem
      obtain ⟨r, hr, hid⟩ := List.mem_map.1 hmem
      exact (List.nodup_cons.1 hnodup).1
        (List.mem_map.2 ⟨r, List.mem_append_left _ hr, hid⟩)
    have hplace : (insertRow row kept ++ rest).Perm (row :: kept ++ rest) :=
      (insertRow_perm hfresh).append_right rest
    exact (ih ((hplace.map _).nodup_iff.2 hnodup)).trans (hplace.trans hmiddle.symm)

/-- Ascending lists of the same rows are equal. -/
theorem Ascending.eq_of_perm {rows rows' : List ResultRow} (h : Ascending rows)
    (h' : Ascending rows') (hperm : rows.Perm rows') : rows = rows' :=
  hperm.eq_of_pairwise (fun _ _ _ _ hlt hgt => absurd hlt (Nat.lt_asymm hgt)) h h'

/-! ### One entry -/

/-- The paths that an entry is asked for: those that its condition reaches, and those of the
columns if the condition holds. -/
def asks (view : View) (r : Request) : List String :=
  Condition.reached view r.condition ++
    match Condition.verdict view r.condition with
    | .ok true => r.columns.map (·.path)
    | _ => []

section Runs

variable {r : Request} {l l' : Lookups}

theorem run_showColumns (examiner : Examiner) (e : Entry) (columns : List ResultColumn)
    (l : Lookups) :
    (showColumns examiner e columns).run l =
      (shownColumns columns (l.answer examiner e),
        l.after examiner ((columns.map (·.path)).map (e, ·))) := by
  induction columns generalizing l with
  | nil => rfl
  | cons c rest ih =>
    have hsame : (l.after examiner [(e, c.path)]).answer examiner e = l.answer examiner e :=
      Lookups.answer_after_entry e [c.path] l
    have hrest : ∀ found, (showColumns examiner e rest >>= fun others =>
        pure ((c.title, found) :: others)).run (l.after examiner [(e, c.path)]) =
        ((c.title, found) :: shownColumns rest (l.answer examiner e),
          l.after examiner (((c :: rest).map (·.path)).map (e, ·))) := fun found => by
      rw [run_bind_of_run (ih _), hsame]
      rfl
    rw [showColumns, run_bind_of_run (Lookups.run_discover examiner e c.path l), shownColumns,
      List.map_cons]
    cases l.answer examiner e c.path with
    | ok found => exact hrest found
    | error failure => exact hrest (.notFound failure.message)

/-- **One entry** gives its row over what the state answers for it, and puts the questions that
its condition reaches and its row shows. -/
theorem run_row? (examiner : Examiner) (e : Entry) (l : Lookups) :
    (row? examiner r e).run l =
      (rowOf (l.answer examiner) r e,
        l.after examiner ((asks (l.answer examiner e) r).map (e, ·))) := by
  have hholds : (Condition.holds examiner (.entry e) r.condition).run.run l =
      (Condition.verdict (l.answer examiner e) r.condition,
        l.after examiner ((Condition.reached (l.answer examiner e) r.condition).map (e, ·))) := by
    rw [Condition.run_holds, Subject.view_entry, Subject.after_entry]
  have hsame : (l.after examiner ((Condition.reached (l.answer examiner e) r.condition).map
      (e, ·))).answer examiner e = l.answer examiner e := Lookups.answer_after_entry e _ l
  rw [row?, run_bind_of_run hholds, rowOf, asks]
  cases hverdict : Condition.verdict (l.answer examiner e) r.condition with
  | error failure =>
    rw [List.append_nil]
    rfl
  | ok b =>
    cases b with
    | false =>
      rw [List.append_nil]
      rfl
    | true =>
      -- only a match is asked for its columns, in the state that its condition has left
      have hshow := run_showColumns examiner e r.columns
        (l.after examiner ((Condition.reached (l.answer examiner e) r.condition).map (e, ·)))
      refine (run_bind_of_run hshow).trans ?_
      rw [hsame, List.map_append, Lookups.after, Lookups.after, Lookups.after, List.foldl_append]
      rfl

/-! ### All entries -/

/-- The rows that entries give one after another, and the state that this leaves. -/
def given (examiner : Examiner) (r : Request) : List Entry → Lookups → List ResultRow × Lookups
  | [], l => ([], l)
  | e :: rest, l =>
    (((row? examiner r e).run l).1.toList ++
        (given examiner r rest ((row? examiner r e).run l).2).1,
      (given examiner r rest ((row? examiner r e).run l).2).2)

theorem given_append (examiner : Examiner) (entries entries' : List Entry) (l : Lookups) :
    given examiner r (entries ++ entries') l =
      ((given examiner r entries l).1 ++
          (given examiner r entries' (given examiner r entries l).2).1,
        (given examiner r entries' (given examiner r entries l).2).2) := by
  induction entries generalizing l with
  | nil => rfl
  | cons e rest ih =>
    rw [List.cons_append, given, ih, given, List.append_assoc]

/-- **Without a limit all rows are put in their places.** -/
theorem run_collect (hlimit : r.limit = none) (examiner : Examiner) (kept : List ResultRow)
    (entries : List Entry) (l : Lookups) :
    (collect examiner r kept entries).run l =
      (merge kept (given examiner r entries l).1, (given examiner r entries l).2) := by
  induction entries generalizing kept l with
  | nil => rfl
  | cons e rest ih =>
    have hroom : ¬isSaturated r.limit kept = true := by
      rw [hlimit]
      exact Bool.false_ne_true
    have hrow : (row? examiner r e).run l =
        (((row? examiner r e).run l).1, ((row? examiner r e).run l).2) := rfl
    rw [collect, if_neg hroom, run_bind_of_run hrow, given, merge_append]
    cases ((row? examiner r e).run l).1 with
    | none => exact ih kept _
    | some row => exact ih (insertRow row kept) _

theorem run_eq_merge (hlimit : r.limit = none) (examiner : Examiner) (entries : List Entry)
    (l : Lookups) :
    (run examiner r entries).run l =
      (merge [] (given examiner r entries l).1, (given examiner r entries l).2) :=
  run_collect hlimit examiner [] entries l

/-- The row of an entry depends on what this entry is answered. -/
theorem rowOf_congr {view view' : Examiner} {e : Entry} (h : view e = view' e) :
    rowOf view r e = rowOf view' r e := by
  rw [rowOf, rowOf, shownRow, shownRow, h]

/-- The questions about entries that reach the examiner, with their answers, if what is kept for
each of them is what is kept at the start. -/
def freshOf (examiner : Examiner) (r : Request) (l : Lookups) (entries : List Entry) :
    List Answered :=
  entries.flatMap fun e => Lookups.fresh examiner e (asks (l.answer examiner e) r) l

/-- **Entries of different numbers do not see each other**: each gives its row, and puts its
questions, as if it were alone. -/
theorem given_of_nodup (examiner : Examiner) {entries : List Entry}
    (hids : (entries.map (·.id)).Nodup)
    (h : ∀ e ∈ entries, ∀ path, l'.get? e.id path = l.get? e.id path) :
    given examiner r entries l' =
      (entries.filterMap (rowOf (l.answer examiner) r),
        l'.note (freshOf examiner r l entries)) := by
  induction entries generalizing l' with
  | nil => exact congrArg (([] : List ResultRow), ·) (Lookups.note_nil l').symm
  | cons e rest ih =>
    obtain ⟨hid, hrest⟩ := List.nodup_cons.1 hids
    have he := h e List.mem_cons_self
    have hanswer : l'.answer examiner e = l.answer examiner e := Lookups.answer_congr he examiner
    have hrow : (row? examiner r e).run l' = (rowOf (l.answer examiner) r e,
        l'.note (Lookups.fresh examiner e (asks (l.answer examiner e) r) l)) := by
      rw [run_row?, hanswer, rowOf_congr hanswer, Lookups.after_eq_note, Lookups.fresh_congr he]
    -- what was noted is about this entry, and the others have other numbers
    have hothers : ∀ e' ∈ rest, ∀ path,
        (l'.note (Lookups.fresh examiner e (asks (l.answer examiner e) r) l)).get? e'.id path =
          l.get? e'.id path := by
      intro e' he' path
      have hne : ∀ a ∈ Lookups.fresh examiner e (asks (l.answer examiner e) r) l,
          a.entry.id ≠ e'.id := by
        intro a ha heq
        rw [(Lookups.of_mem_fresh ha).1] at heq
        exact hid (List.mem_map.2 ⟨e', he', heq.symm⟩)
      rw [Lookups.get?_note_of_ne hne]
      exact h e' (List.mem_cons_of_mem _ he') path
    rw [given, hrow, ih hrest hothers, ← Lookups.note_append, List.filterMap_cons]
    cases rowOf (l.answer examiner) r e <;> rfl

/-- A question that reaches the examiner has one answer, as numbers tell the entries apart. -/
theorem answer_eq_of_mem_freshOf {examiner : Examiner} {entries : List Entry}
    (hids : (entries.map (·.id)).Nodup) :
    ∀ a ∈ freshOf examiner r l entries, ∀ a' ∈ freshOf examiner r l entries, a.key = a'.key →
      a.answer = a'.answer := by
  intro a ha a' ha' hkey
  obtain ⟨e, he, hfresh⟩ := List.mem_flatMap.1 ha
  obtain ⟨e', he', hfresh'⟩ := List.mem_flatMap.1 ha'
  obtain ⟨rfl, hanswer⟩ := Lookups.of_mem_fresh hfresh
  obtain ⟨rfl, hanswer'⟩ := Lookups.of_mem_fresh hfresh'
  obtain ⟨hid, hpath⟩ := Prod.mk.inj hkey
  rw [hanswer, hanswer', hpath, List.inj_on_of_nodup_map hids he he' hid]

/-- The rows of entries of different numbers are all there once they are put in their places. -/
theorem merge_filterMap_perm (view : Examiner) {entries : List Entry}
    (hids : (entries.map (·.id)).Nodup) :
    (merge [] (entries.filterMap (rowOf view r))).Perm (entries.filterMap (rowOf view r)) := by
  refine merge_perm ?_
  rw [List.nil_append, filterMap_rowOf, numbers, List.map_map]
  exact hids.sublist (List.filter_sublist.map _)

theorem fst_given_of_nodup (examiner : Examiner) {entries : List Entry}
    (hids : (entries.map (·.id)).Nodup) (l : Lookups) :
    (given examiner r entries l).1 = entries.filterMap (rowOf (l.answer examiner) r) :=
  congrArg Prod.fst (given_of_nodup examiner hids fun _ _ _ => rfl)

/-- **Entries of different numbers in another order** give the same rows and leave the same
behind. -/
theorem run_perm (hlimit : r.limit = none) (examiner : Examiner) {entries entries' : List Entry}
    (hids : (entries.map (·.id)).Nodup) (hperm : entries'.Perm entries) (l : Lookups) :
    ((run examiner r entries').run l).1 = ((run examiner r entries).run l).1 ∧
      ((run examiner r entries').run l).2.SameUpToOrder ((run examiner r entries).run l).2 := by
  have hids' : (entries'.map (·.id)).Nodup := (hperm.map _).nodup_iff.2 hids
  have hsame : ∀ e : Entry, ∀ path, l.get? e.id path = l.get? e.id path := fun _ _ => rfl
  rw [run_eq_merge hlimit, run_eq_merge hlimit, given_of_nodup examiner hids fun e _ => hsame e,
    given_of_nodup examiner hids' fun e _ => hsame e]
  constructor
  · -- both ascend by number, so it is enough that they have the same rows
    have hrows := hperm.filterMap (rowOf (l.answer examiner) r)
    refine (Ascending.merge .nil _).eq_of_perm (.merge .nil _) ?_
    exact ((merge_filterMap_perm _ hids').trans hrows).trans (merge_filterMap_perm _ hids).symm
  · exact Lookups.sameUpToOrder_note (answer_eq_of_mem_freshOf hids) (hperm.flatMap_right _) l

/-- **Two runs are one**, if the second goes on from the state that the first one leaves: the
rows of the second are put in their places among those of the first. -/
theorem run_append (hlimit : r.limit = none) (examiner : Examiner) (entries entries' : List Entry)
    (l : Lookups) :
    (run examiner r (entries ++ entries')).run l =
      (merge ((run examiner r entries).run l).1
          ((run examiner r entries').run ((run examiner r entries).run l).2).1,
        ((run examiner r entries').run ((run examiner r entries).run l).2).2) := by
  simp only [run_eq_merge hlimit, given_append, merge_append, merge_merge]

/-- The rows of two runs over entries of different numbers are all there. -/
theorem merge_run_perm (hlimit : r.limit = none) (examiner : Examiner)
    {entries entries' : List Entry} (hids : ((entries ++ entries').map (·.id)).Nodup)
    (l : Lookups) :
    let first := (run examiner r entries).run l
    let second := (run examiner r entries').run first.2
    (merge first.1 second.1).Perm (first.1 ++ second.1) := by
  intro first second
  have hall := fst_given_of_nodup (r := r) examiner hids l
  obtain ⟨hfirst, hsecond, -⟩ := List.nodup_append.1 (List.map_append ▸ hids)
  -- the rows that the second run is given are those that its entries have at the start
  rw [given_append, fst_given_of_nodup examiner hfirst, List.filterMap_append,
    List.append_cancel_left_eq] at hall
  have hrun : first = (merge [] (given examiner r entries l).1, (given examiner r entries l).2) :=
    run_eq_merge hlimit examiner entries l
  have hrows : first.1 = merge [] (entries.filterMap (rowOf (l.answer examiner) r)) := by
    rw [hrun, fst_given_of_nodup examiner hfirst]
  have hrows' : second.1 = merge [] (entries'.filterMap (rowOf (l.answer examiner) r)) := by
    have hrun' : second.1 = merge [] (given examiner r entries' first.2).1 :=
      congrArg Prod.fst (run_eq_merge hlimit examiner entries' first.2)
    rw [hrun', hrun, hall]
  have hmerge := merge_filterMap_perm (r := r) (l.answer examiner) hids
  rw [List.filterMap_append, merge_append] at hmerge
  rw [hrows, hrows', merge_merge]
  exact hmerge.trans
    ((merge_filterMap_perm _ hfirst).symm.append (merge_filterMap_perm _ hsecond).symm)

/-- **Matching without a limit does not depend on the order of its entries.** Over entries of
different numbers, each of which the examiner may fail to answer, it gives the same rows in any
order, keeps the same and puts as many questions. And matching two lists one after the other,
the second with what has been looked up for the first, is matching them together. -/
theorem run_in_any_order (examiner : Examiner) (r : Request) (hlimit : r.limit = none)
    (l : Lookups) :
    (∀ entries entries' : List Entry, (entries.map (·.id)).Nodup → entries'.Perm entries →
      ((run examiner r entries').run l).1 = ((run examiner r entries).run l).1 ∧
        ((run examiner r entries').run l).2.SameUpToOrder ((run examiner r entries).run l).2) ∧
    ∀ entries entries' : List Entry,
      let first := (run examiner r entries).run l
      let second := (run examiner r entries').run first.2
      (run examiner r (entries ++ entries')).run l = (merge first.1 second.1, second.2) ∧
        (((entries ++ entries').map (·.id)).Nodup →
          (merge first.1 second.1).Perm (first.1 ++ second.1)) :=
  ⟨fun _ _ hids hperm => run_perm hlimit examiner hids hperm l,
    fun entries entries' => ⟨run_append hlimit examiner entries entries' l,
      fun hids => merge_run_perm hlimit examiner hids l⟩⟩

end Runs

/-! ### Lockers -/

/-- A locker has an owner, but for the second one, of which nobody knows; no key can be looked
up. -/
def lockerExaminer : Examiner := fun e path =>
  if path = "owner" ∧ e.id ≠ 2 then .ok (.primitive (.string e.uri))
  else .error (.discovery path "unknown")

/-- Three lockers, the last one in front. -/
def lockers : List Entry :=
  [⟨3, "zoe", "gym", "Locker"⟩, ⟨1, "ann", "gym", "Locker"⟩, ⟨2, "joe", "gym", "Locker"⟩]

/-- All lockers with an owner, with their keys. -/
def ownedLockers : Request where
  condition := [⟨.and, .assertion "owner" (.predicate .isPresent)⟩]
  columns := [⟨"owner", "owner"⟩, ⟨"key", "key"⟩]

/-- The owner of the first locker was looked up before it changed hands. -/
def lockersSeen : Lookups where
  kept := [((1, "owner"), .primitive (.string "sue"))]
  loads := 1
  calls := [(⟨1, "ann", "gym", "Locker"⟩, "owner")]

theorem run_in_any_order_lockers :
    (ownedLockers.limit = none ∧ (lockers.map (·.id)).Nodup ∧ lockers.reverse.Perm lockers) ∧
    (((run lockerExaminer ownedLockers lockers.reverse).run lockersSeen).1 =
        ((run lockerExaminer ownedLockers lockers).run lockersSeen).1 ∧
      ((run lockerExaminer ownedLockers lockers.reverse).run lockersSeen).2.SameUpToOrder
        ((run lockerExaminer ownedLockers lockers).run lockersSeen).2) ∧
    let first := (run lockerExaminer ownedLockers [⟨3, "zoe", "gym", "Locker"⟩]).run lockersSeen
    let second := (run lockerExaminer ownedLockers
      [⟨1, "ann", "gym", "Locker"⟩, ⟨2, "joe", "gym", "Locker"⟩]).run first.2
    (run lockerExaminer ownedLockers lockers).run lockersSeen =
        (merge first.1 second.1, second.2) ∧
      (merge first.1 second.1).Perm (first.1 ++ second.1) := by
  have hids : (lockers.map (·.id)).Nodup := by decide
  have hperm : lockers.reverse.Perm lockers := List.reverse_perm lockers
  obtain ⟨horder, hparts⟩ := run_in_any_order lockerExaminer ownedLockers rfl lockersSeen
  obtain ⟨hruns, hrows⟩ := hparts [⟨3, "zoe", "gym", "Locker"⟩]
    [⟨1, "ann", "gym", "Locker"⟩, ⟨2, "joe", "gym", "Locker"⟩]
  exact ⟨⟨rfl, hids, hperm⟩, horder lockers lockers.reverse hids hperm, hruns, hrows hids⟩

/-- The rows come out by number, and every locker that was not seen is asked about once, and
about its key if it has an owner. -/
example :
    (((run lockerExaminer ownedLockers lockers).run lockersSeen).1.map (·.entry.id),
      ((run lockerExaminer ownedLockers lockers).run lockersSeen).2.loads) = ([1, 3], 5) := by
  decide

end Matching

end ObjectQuery
