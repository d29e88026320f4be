import Mathlib.Data.Set.List
import ObjectQuery.Proofs.Pipeline.Passes
import ObjectQuery.Proofs.Pipeline.Sort
import ObjectQuery.Proofs.Session.Limit

/-!
# What an ordered query sorts by and what it shows

An ordered query looks columns up by title twice. A sort key reads the **first** column of its
title (`Execute.firstTitled`), as the projection finds it. In the result the cells of a row are
put under their titles one after another, and the cell of the **last** column of a title stays
(`Execute.lastTitled`). All columns of a row show what the same state answers for its entry, in
every run and from every state (`Execute.exists_rows_collect`). So the value that a row is sorted
by is the one that is shown if the two columns show the same path
(`Execute.runQuery_shows_keys`), and in particular if no title is given twice.

Where a title is given to two paths the value that decides about the place of a row does not
show, and the rows need not be in the order of what is shown
(`Execute.runQuery_hides_key`).
-/

namespace ObjectQuery

namespace Stage

variable {examiner : Examiner} {l : Lookups}

/-! ### Rows of filters and projections -/

/-- What comes of a row that is filtered is the row itself. -/
theorem eq_of_passedOn_filterRow {c : Condition} {declared? : Option Projection} {row made : Row}
    (h : passedOn ((filterRow examiner c declared? row).run.run l).1 = some made) :
    made = row := by
  cases hsubject : subject declared? row with
  | error failure =>
    have hrun : (filterRow examiner c declared? row).run.run l = (.error failure, l) := by
      rw [filterRow, hsubject]
      rfl
    rw [hrun] at h
    cases h
  | ok s =>
    rw [run_filterRow hsubject] at h
    exact eq_of_passedOn_kept h

theorem mem_of_mem_passes_filter {c : Condition} {declared? : Option Projection} {row : Row}
    {rows : List Row} (h : row ∈ (passes (filterRow examiner c declared?) rows l).1) :
    row ∈ rows := by
  have hmem : ∀ row ∈ (passes (filterRow examiner c declared?) rows l).1, row ∈ rows :=
    (passes_forall (P := fun _ => True) (fun row hrow _ _ =>
      ⟨trivial, fun made hmade => eq_of_passedOn_filterRow hmade ▸ hrow⟩) trivial).2
  exact hmem row h

/-- **Projecting entries** makes a row of each that shows what one state answers for it. -/
theorem exists_of_mem_passes_project {target : Projection} {declared? : Option Projection}
    {row : Row} {rows : List Row} (hrows : ∀ row ∈ rows, ∃ e, row = .entry e)
    (h : row ∈ (passes (projectRow examiner target declared?) rows l).1) :
    ∃ l' e, row = .projected (projectedRow (Lookups.answer l' examiner) target e) := by
  have hmade : ∀ row ∈ (passes (projectRow examiner target declared?) rows l).1,
      ∃ l' e, row = .projected (projectedRow (Lookups.answer l' examiner) target e) := by
    refine (passes_forall (P := fun _ => True) (fun row hrow l' _ => ⟨trivial, ?_⟩) trivial).2
    obtain ⟨e, rfl⟩ := hrows row hrow
    intro made hmade
    rw [run_projectRow_entry] at hmade
    exact ⟨l', e, (Option.some.inj hmade).symm⟩
  exact hmade row h

end Stage

namespace Execute

/-! ### Columns of one title -/

/-- The first column of a title. -/
def firstTitled (columns : List ResultColumn) (title : String) : Option ResultColumn :=
  columns.find? (·.title == title)

/-- The last column of a title. -/
def lastTitled (columns : List ResultColumn) (title : String) : Option ResultColumn :=
  columns.reverse.find? (·.title == title)

/-- A title has a first and a last column. -/
theorem exists_titled {columns : List ResultColumn} {title : String}
    (h : ∃ c ∈ columns, c.title = title) :
    ∃ first last, firstTitled columns title = some first ∧
      lastTitled columns title = some last := by
  obtain ⟨c, hc, htitle⟩ := h
  have hfirst : (firstTitled columns title).isSome = true :=
    List.find?_isSome.2 ⟨c, hc, by simpa using htitle⟩
  have hlast : (lastTitled columns title).isSome = true :=
    List.find?_isSome.2 ⟨c, List.mem_reverse.2 hc, by simpa using htitle⟩
  obtain ⟨first, hfirst⟩ := Option.isSome_iff_exists.1 hfirst
  obtain ⟨last, hlast⟩ := Option.isSome_iff_exists.1 hlast
  exact ⟨first, last, hfirst, hlast⟩

/-- An identifier that is a title names the first column of this title. -/
theorem exists_index_of_firstTitled {columns : List ResultColumn} {title : String}
    {c : ResultColumn} (h : firstTitled columns title = some c) :
    ∃ i, (projectionOf columns).indexOfIdentifier? title = some i ∧ columns[i]? = some c := by
  have halias : (projectionOf columns).indexOfAlias? title =
      columns.findIdx? (·.title == title) := by
    rw [Projection.indexOfAlias?, projectionOf, List.findIdx?_map]
    congr 1
  rw [firstTitled, List.find?_eq_bind_findIdx?_getElem?] at h
  obtain ⟨i, hi, hc⟩ := Option.bind_eq_some_iff.1 h
  exact ⟨i, by rw [Projection.indexOfIdentifier?, halias, hi, Option.some_or], hc⟩

/-- **A sort key reads the first column of its title.** -/
theorem under_projectedRow {columns : List ResultColumn} {key : SortKey} {c : ResultColumn}
    (h : firstTitled columns key.identifier = some c) (view : Examiner) (e : Entry) :
    (projectedRow view (projectionOf columns) e).under (projectionOf columns) key =
      shown (view e c.path) := by
  obtain ⟨i, hi, hc⟩ := exists_index_of_firstTitled h
  have hvalue : (projectedRow view (projectionOf columns) e).columns[i]? =
      some (shown (view e c.path)) := by
    rw [projectedRow, projectionOf, List.map_map, List.getElem?_map, hc]
    exact congrArg some (Column.shows_of_any rfl _)
  rw [ProjectedRow.under, hi, Option.bind_some, hvalue, Option.getD_some]

/-- **The cell of a title shows the last column of this title.** -/
theorem lookup_shownRow {columns : List ResultColumn} {title : String} {c : ResultColumn}
    (h : lastTitled columns title = some c) (view : Examiner) (e : Entry) :
    (shownRow columns view e).cells.lookup title = some (Cell.ofFound (shown (view e c.path))) := by
  obtain ⟨htitle, behind, before, heq, hbehind⟩ := List.find?_eq_some_iff_append.1 h
  have hsplit : columns = before.reverse ++ c :: behind.reverse := by
    rw [← List.reverse_reverse columns, heq]
    simp
  obtain rfl : c.title = title := by simpa using htitle
  rw [Cell.ofFound_shown]
  refine (Cells.shows_ofFound columns (view e)).last _ c _ hsplit fun d hd => ?_
  simpa using hbehind d (List.mem_reverse.1 hd)

/-! ### The rows of an ordered query -/

/-- **What an ordered query collects**: rows that show what one state each answers for their
entries, sorted by the columns at the positions given. -/
theorem exists_rows_collect (examiner : Examiner) (noneFirst : Bool) {q : QueryInstruction}
    {positions : List (Nat × Direction)}
    (hpositions : Sorting.positions (projectionOf (orderedColumns q)) q.sort = .ok positions)
    (entries : List Entry) (l : Lookups) :
    ∃ made l', (∀ r ∈ made, ∃ (l : Lookups) (e : Entry),
        r = projectedRow (l.answer examiner) (projectionOf (orderedColumns q)) e) ∧
      (Pipeline.collect examiner noneFirst (orderedSteps q (orderedColumns q))
          (entries.map .ok)).run.run l =
        (.ok ((Stage.sortedRows noneFirst positions made).map .projected), l') := by
  rcases hcollect : (Pipeline.collect examiner noneFirst (orderedSteps q (orderedColumns q))
    (entries.map .ok)).run.run l with ⟨collected, l'⟩
  let first := (Stage.run examiner noneFirst (Stream.scan (entries.map .ok))
    (.filter q.condition none)).run l
  let second := (Stage.run examiner noneFirst first.1
    (.project (projectionOf (orderedColumns q)) none)).run first.2
  -- the filter passes on entries only, so that the projection makes a row for each of them
  have hentries : ∀ row ∈ first.1.rows, ∃ e, row = .entry e := by
    intro row hrow
    rw [(Stage.rows_run_filter ..).1] at hrow
    have hscan := Stage.mem_of_mem_passes_filter hrow
    rw [Stream.rows_scan] at hscan
    obtain ⟨e, -, rfl⟩ := List.mem_map.1 hscan
    exact ⟨e, rfl⟩
  have hshows : ∀ row ∈ second.1.rows, ∃ (l : Lookups) (e : Entry),
      row = .projected (projectedRow (l.answer examiner) (projectionOf (orderedColumns q)) e) := by
    intro row hrow
    rw [(Stage.rows_run_project ..).1] at hrow
    exact Stage.exists_of_mem_passes_project hentries hrow
  have hprojected : second.1.rows ∈ Set.range (List.map Row.projected) := by
    rw [Set.range_list_map]
    intro row hrow
    obtain ⟨l, e, rfl⟩ := hshows row hrow
    exact ⟨_, rfl⟩
  obtain ⟨made, hmade⟩ := hprojected
  refine ⟨made, l', fun r hr => ?_, ?_⟩
  · obtain ⟨l, e, hrow⟩ := hshows (.projected r) (hmade ▸ List.mem_map_of_mem hr)
    exact ⟨l, e, Row.projected.inj hrow⟩
  · -- the third stage sorts: its rows are those of the second one in another order
    have hrows : collected = .ok (Stage.sortStream noneFirst positions
        (projectionOf (orderedColumns q)) second.1).rows := by
      have hfst := Pipeline.fst_collect examiner noneFirst (orderedSteps q (orderedColumns q))
        (entries.map .ok) l
      rw [hcollect, Pipeline.rowsOf, Stream.projection?_scan, stages_orderedSteps hpositions]
        at hfst
      exact hfst
    rw [hrows, Stage.rows_sortStream noneFirst positions _ hmade.symm]

/-- What an ordered query shows of the rows that its pipeline makes. -/
theorem run_resultOf_ordered (settings : Settings) {q : QueryInstruction} (hsort : q.sort ≠ [])
    {examiner : Examiner} {entries : List Entry} {rows : List Row} {l l' : Lookups}
    (h : (Pipeline.collect examiner settings.nullsFirst (orderedSteps q (orderedColumns q))
      (entries.map .ok)).run.run l = (.ok rows, l')) :
    (resultOf examiner settings q entries).run.run l = (.ok (resultSetOf q rows), l') := by
  rw [resultOf_of_ordered settings hsort, runOrdered, run_bind_of_ok h]
  rfl

/-- A query shows what making its result comes to. -/
theorem run_runQuery {a : Access} {settings : Settings} {q : QueryInstruction} {session : Session}
    {result : ResultSet} {l' : Lookups}
    (h : (resultOf a.examine settings q (session.store.get q.target)).run.run session.lookups =
      (.ok result, l')) :
    (runQuery a settings q).run.run session =
      (.ok (.queried q.text result), { session with lookups := l' }) := by
  have hget : (get : SessionM Session).run.run session = (.ok session, session) := rfl
  rw [runQuery, run_bind_of_ok hget, run_bind_of_ok (SessionM.run_onLookups h)]
  rfl

theorem mem_of_mem_cut {α : Type} {limit : Option Nat} {rows : List α} {row : α}
    (h : row ∈ cut limit rows) : row ∈ rows := by
  cases limit with
  | none => exact h
  | some n => exact List.mem_of_mem_take h

/-! ### Keys and cells -/

/-- Under a sort key that is a title, a row is placed by what its first column of the title shows,
and the result shows the last one. -/
structure ShowsUnder (columns : List ResultColumn) (view : View) (r : ProjectedRow)
    (row : ResultRow) (key : SortKey) (first last : ResultColumn) : Prop where
  isFirst : firstTitled columns key.identifier = some first
  isLast : lastTitled columns key.identifier = some last
  value : r.under (projectionOf columns) key = shown (view first.path)
  cell : row.cells.lookup key.identifier = some (Cell.ofFound (shown (view last.path)))

/-- **What a row is placed by is shown** if the two columns show the same path. -/
theorem ShowsUnder.lookup_eq {columns : List ResultColumn} {view : View} {r : ProjectedRow}
    {row : ResultRow} {key : SortKey} {first last : ResultColumn}
    (h : ShowsUnder columns view r row key first last) (hpath : first.path = last.path) :
    row.cells.lookup key.identifier =
      some (Cell.ofFound (r.under (projectionOf columns) key)) := by
  rw [h.cell, h.value, hpath]

/-- **What an ordered query sorts by, and what it shows.** From every session the query shows
rows that a sort by its keys has put in order, each of which shows of its entry what one state
answers for it. A key that is a title is decided by the first column of the title, and the cell
under the title shows the last one; so what is shown is what the row was placed by if the two
columns show the same path. -/
theorem runQuery_shows_keys (a : Access) (settings : Settings) {q : QueryInstruction}
    (hsort : q.sort ≠ []) (session : Session) :
    let columns := orderedColumns q
    ∃ positions made result session',
      Sorting.positions (projectionOf columns) q.sort = .ok positions ∧
      (runQuery a settings q).run.run session = (.ok (.queried q.text result), session') ∧
      result =
        resultSetOf q ((Stage.sortedRows settings.nullsFirst positions made).map .projected) ∧
      ∀ row ∈ result.rows, ∃ r ∈ made, resultRow? columns (.projected r) = some row ∧
        ∃ l : Lookups, r = projectedRow (l.answer a.examine) (projectionOf columns) row.entry ∧
          ∀ key ∈ q.sort, (∃ c ∈ columns, c.title = key.identifier) →
            ∃ first last,
              ShowsUnder columns (l.answer a.examine row.entry) r row key first last ∧
              (first.path = last.path → row.cells.lookup key.identifier =
                some (Cell.ofFound (r.under (projectionOf columns) key))) := by
  intro columns
  obtain ⟨positions, hpositions⟩ := exists_positions q
  obtain ⟨made, l', hmade, hcollect⟩ := exists_rows_collect a.examine settings.nullsFirst hpositions
    (session.store.get q.target) session.lookups
  refine ⟨positions, made, _, _, hpositions,
    run_runQuery (run_resultOf_ordered settings hsort hcollect), rfl, fun row hrow => ?_⟩
  -- a row that is shown has been sorted, and a row that has been sorted was made for an entry
  obtain ⟨projected, hsorted, hrow⟩ := List.mem_filterMap.1 (mem_of_mem_cut hrow)
  obtain ⟨r, hr, rfl⟩ := List.mem_map.1 hsorted
  have hmem : r ∈ made := Stage.mem_of_mem_sortedRows hr
  obtain ⟨l, e, rfl⟩ := hmade r hmem
  refine ⟨_, hmem, hrow, ?_⟩
  rw [resultRow?_projectedRow] at hrow
  obtain rfl := Option.some.inj hrow
  refine ⟨l, rfl, fun key _ htitle => ?_⟩
  obtain ⟨first, last, hfirst, hlast⟩ := exists_titled htitle
  have hshows : ShowsUnder columns (l.answer a.examine e)
      (projectedRow (l.answer a.examine) (projectionOf columns) e)
      (shownRow columns (l.answer a.examine) e) key first last :=
    ⟨hfirst, hlast, under_projectedRow hfirst _ e, lookup_shownRow hlast _ e⟩
  exact ⟨first, last, hshows, hshows.lookup_eq⟩

/-! ### Neighbours -/

/-- Everybody in the village. -/
def village : Target := { schemas := NameSet.ofList ["village"] }

/-- Two neighbours, whose given and family names come in different orders. -/
def neighbours : Store :=
  let s := Store.add {} "people/1" "village" "Person"
    (.object [("given", .string "ann"), ("family", .string "zorn")])
  s.add "people/2" "village" "Person"
    (.object [("given", .string "bob"), ("family", .string "abel")])

/-- The session in which the village has been indexed. -/
def indexedNeighbours : Session where
  store := (neighbours.refresh .initial village).2

/-- The given names by themselves, and then by a family name that is not asked for. -/
def byGivenName : QueryInstruction where
  target := village
  columns := [⟨"given", "name"⟩]
  sort := [⟨"name", .descending⟩, ⟨"family", .ascending⟩]

theorem runQuery_shows_keys_byGivenName :
    byGivenName.sort ≠ [] ∧
    let columns := orderedColumns byGivenName
    ∃ positions made result session',
      Sorting.positions (projectionOf columns) byGivenName.sort = .ok positions ∧
      (runQuery neighbours.access {} byGivenName).run.run indexedNeighbours =
        (.ok (.queried byGivenName.text result), session') ∧
      result = resultSetOf byGivenName
        ((Stage.sortedRows ({} : Settings).nullsFirst positions made).map .projected) ∧
      ∀ row ∈ result.rows, ∃ r ∈ made, resultRow? columns (.projected r) = some row ∧
        ∃ l : Lookups,
          r = projectedRow (l.answer neighbours.access.examine) (projectionOf columns) row.entry ∧
          ∀ key ∈ byGivenName.sort, (∃ c ∈ columns, c.title = key.identifier) →
            ∃ first last,
              ShowsUnder columns (l.answer neighbours.access.examine row.entry) r row key first
                last ∧
              (first.path = last.path → row.cells.lookup key.identifier =
                some (Cell.ofFound (r.under (projectionOf columns) key))) := by
  have hsort : byGivenName.sort ≠ [] := by decide
  exact ⟨hsort, runQuery_shows_keys neighbours.access {} hsort indexedNeighbours⟩

/-- The given and the family names under one title, by this title. -/
def byName : QueryInstruction where
  target := village
  columns := [⟨"given", "name"⟩, ⟨"family", "name"⟩]
  sort := [⟨"name", .ascending⟩]

/-- The row of a neighbour in the pipeline. -/
def nameRow (id : Nat) (uri given family : String) : ProjectedRow :=
  ⟨some ⟨id, uri, "village", "Person"⟩, [.primitive (.string given), .primitive (.string family)]⟩

/-- **What a row is placed by need not be shown**: neighbours are sorted by their given names,
and their family names are shown, in descending order. -/
theorem runQuery_hides_key :
    let rows := [nameRow 1 "people/1" "ann" "zorn", nameRow 2 "people/2" "bob" "abel"]
    ((Pipeline.collect neighbours.access.examine true (orderedSteps byName (orderedColumns byName))
        ((indexedNeighbours.store.get village).map .ok)).run.run {}).1 =
      .ok (rows.map .projected) ∧
    ((runQuery neighbours.access {} byName).run.run indexedNeighbours).1 =
      .ok (.queried byName.text (resultSetOf byName (rows.map .projected))) ∧
    (resultSetOf byName (rows.map .projected)).rows.map (·.cells.lookup "name") =
      [some ⟨false, "zorn"⟩, some ⟨false, "abel"⟩] ∧
    rows.map (fun r => Cell.ofFound
        (r.under (projectionOf (orderedColumns byName)) ⟨"name", .ascending⟩)) =
      [⟨false, "ann"⟩, ⟨false, "bob"⟩] :=
  ⟨rfl, rfl, rfl, rfl⟩

end Execute

end ObjectQuery
