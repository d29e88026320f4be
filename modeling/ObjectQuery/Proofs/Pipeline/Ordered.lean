import ObjectQuery.Proofs.Pipeline.Stages
import ObjectQuery.Session.Execute

/-!
# The rows of an ordered query

An ordered query adds a column for every sort key that names none of its own
(`Execute.orderedColumns_eq`), so that every key names a column and the pipeline is never
refused (`Execute.exists_positions`). What the pipeline makes of numbered entries is the
rows of those that fulfil the condition, sorted and cut (`Execute.gives_runOrdered`), and
but for the order these are the rows that matching gives for the same columns, if sorting
them does not break off (`Execute.orderedRows_perm`).
-/

namespace ObjectQuery

namespace Execute

/-! ### Columns for sort keys -/

/-- A column of its own for every name. -/
def ownColumns (names : List String) : List ResultColumn :=
  names.map fun name => ⟨name, name⟩

theorem any_ownColumns {names : List String} {name : String} :
    (ownColumns names).any (goesBy name) = true ↔ name ∈ names := by
  simp only [ownColumns, List.any_map, List.any_eq_true, Function.comp_apply, goesBy,
    Bool.or_self, beq_iff_eq, exists_eq_right]

theorem exists_title_ownColumns {names : List String} {title : String} :
    (∃ c, c ∈ ownColumns names ∧ c.title = title) ↔ title ∈ names := by
  constructor
  · rintro ⟨c, hc, rfl⟩
    obtain ⟨name, hname, rfl⟩ := List.mem_map.1 hc
    exact hname
  · exact fun h => ⟨⟨title, title⟩, List.mem_map_of_mem h, rfl⟩

/-- **One sort key** adds a column exactly if nothing goes by its identifier yet. -/
theorem withSortColumn_eq (columns : List ResultColumn) (k : SortKey) {names : List String}
    (hnodup : names.Nodup) :
    ∃ names', withSortColumn (columns ++ ownColumns names) k = columns ++ ownColumns names' ∧
      names'.Nodup ∧
      ∀ name, name ∈ names' ↔
        name ∈ names ∨ k.identifier = name ∧ columns.any (goesBy name) = false := by
  rw [withSortColumn]
  by_cases hgoes : (columns ++ ownColumns names).any (goesBy k.identifier) = true
  · refine ⟨names, if_pos hgoes, hnodup, fun name => ⟨.inl, ?_⟩⟩
    rw [List.any_append, Bool.or_eq_true, any_ownColumns] at hgoes
    rintro (hname | ⟨rfl, hcolumns⟩)
    · exact hname
    · -- what goes by the identifier is none of the columns asked for
      refine hgoes.resolve_left fun hcolumn => ?_
      rw [hcolumns] at hcolumn
      cases hcolumn
  · have happend : columns ++ ownColumns names ++ [⟨k.identifier, k.identifier⟩] =
        columns ++ ownColumns (names ++ [k.identifier]) := by
      simp [ownColumns]
    refine ⟨names ++ [k.identifier], (if_neg hgoes).trans happend, ?_, fun name => ?_⟩
    · rw [List.any_append, Bool.or_eq_true, any_ownColumns, not_or] at hgoes
      refine List.nodup_append.2 ⟨hnodup, List.pairwise_singleton _ _, fun a ha b hb hab => ?_⟩
      rw [hab, List.mem_singleton.1 hb] at ha
      exact hgoes.2 ha
    · rw [List.any_append, Bool.or_eq_true, not_or, Bool.not_eq_true] at hgoes
      rw [List.mem_append, List.mem_singleton]
      refine or_congr_right ⟨?_, fun h => h.1.symm⟩
      rintro rfl
      exact ⟨rfl, hgoes.1⟩

/-- All sort keys add a column each for the identifiers that no column goes by. -/
theorem foldl_withSortColumn (columns : List ResultColumn) (keys : List SortKey)
    {names : List String} (hnodup : names.Nodup) :
    ∃ names', keys.foldl withSortColumn (columns ++ ownColumns names) =
        columns ++ ownColumns names' ∧ names'.Nodup ∧
      ∀ name, name ∈ names' ↔ name ∈ names ∨
        (∃ k ∈ keys, k.identifier = name) ∧ columns.any (goesBy name) = false := by
  induction keys generalizing names with
  | nil => exact ⟨names, rfl, hnodup, by simp⟩
  | cons k rest ih =>
    obtain ⟨names', hfirst, hnodup', hmem⟩ := withSortColumn_eq columns k hnodup
    obtain ⟨names'', hrest, hnodup'', hmem'⟩ := ih hnodup'
    refine ⟨names'', by rw [List.foldl_cons, hfirst, hrest], hnodup'', fun name => ?_⟩
    simp only [List.mem_cons, exists_eq_or_imp]
    rw [hmem', hmem, or_and_right, or_assoc]

/-- **The columns of an ordered query**: those asked for, and behind them one for each
name that sort keys use and no column goes by. -/
theorem orderedColumns_eq (q : QueryInstruction) :
    ∃ names, orderedColumns q = q.columns ++ ownColumns names ∧ names.Nodup ∧
      ∀ name, name ∈ names ↔
        (∃ k ∈ q.sort, k.identifier = name) ∧ q.columns.any (goesBy name) = false := by
  obtain ⟨names, hfold, hnodup, hmem⟩ :=
    foldl_withSortColumn q.columns q.sort List.nodup_nil
  refine ⟨names, ?_, hnodup, fun name => by simpa using hmem name⟩
  simpa [orderedColumns, ownColumns] using hfold

/-- Every sort key of a query names a column of the ordered query. -/
theorem any_orderedColumns {q : QueryInstruction} {k : SortKey} (hk : k ∈ q.sort) :
    (orderedColumns q).any (goesBy k.identifier) = true := by
  obtain ⟨names, hcolumns, -, hmem⟩ := orderedColumns_eq q
  rw [hcolumns, List.any_append, Bool.or_eq_true, any_ownColumns, hmem]
  cases q.columns.any (goesBy k.identifier) with
  | true => exact .inl rfl
  | false => exact .inr ⟨⟨k, hk, rfl⟩, rfl⟩

/-! ### Every sort key is known -/

/-- An identifier names a column of the projection exactly if a column goes by it. -/
theorem isSome_indexOfIdentifier? (columns : List ResultColumn) (name : String) :
    (Projection.indexOfIdentifier? (projectionOf columns) name).isSome =
      columns.any (goesBy name) := by
  have halias : (fun c : Column => c.alias? == some name) ∘
      (fun c : ResultColumn => { path := c.path, alias? := some c.title }) =
      fun c => c.title == name := by
    funext c
    simp
  rw [Projection.indexOfIdentifier?, Projection.indexOfAlias?, Projection.indexOf?,
    Option.isSome_or, List.findIdx?_isSome, List.findIdx?_isSome, projectionOf, List.any_map,
    List.any_map, halias]
  induction columns with
  | nil => rfl
  | cons c rest ih =>
    simp only [List.any_cons, ← ih, goesBy, Function.comp_apply]
    cases c.title == name <;> cases c.path == name <;> simp

theorem positions_eq_ok {p : Projection} {keys : List SortKey}
    (h : ∀ k ∈ keys, (Projection.indexOfIdentifier? p k.identifier).isSome = true) :
    ∃ found, Sorting.positions p keys = .ok found := by
  induction keys with
  | nil => exact ⟨[], rfl⟩
  | cons k rest ih =>
    obtain ⟨found, hfound⟩ := ih fun k' hk' => h k' (List.mem_cons_of_mem _ hk')
    obtain ⟨i, hi⟩ := Option.isSome_iff_exists.1 (h k List.mem_cons_self)
    refine ⟨(i, k.direction) :: found, ?_⟩
    rw [Sorting.positions, hi, hfound]
    rfl

/-- **No sort key of an ordered query is unknown.** -/
theorem exists_positions (q : QueryInstruction) :
    ∃ found, Sorting.positions (projectionOf (orderedColumns q)) q.sort = .ok found :=
  positions_eq_ok fun _ hk =>
    (isSome_indexOfIdentifier? _ _).trans (any_orderedColumns hk)

/-! ### The pipeline of an ordered query -/

/-- The stages of an ordered query. -/
theorem stages_orderedSteps {q : QueryInstruction} {keys : List (Nat × Direction)}
    (h : Sorting.positions (projectionOf (orderedColumns q)) q.sort = .ok keys) :
    Pipeline.stages none (orderedSteps q (orderedColumns q)) =
      .ok [.filter q.condition none, .project (projectionOf (orderedColumns q)) none,
        .sort keys (projectionOf (orderedColumns q))] := by
  refine Pipeline.stages_cons rfl (Pipeline.stages_cons rfl (Pipeline.stages_cons ?_ rfl))
  simp only [Pipeline.stage, Stage.declares, h]

/-- The rows that an ordered query sorts: those of the entries that fulfil its condition. -/
def rowsToSort (view : Examiner) (q : QueryInstruction) (entries : List Entry) :
    List ProjectedRow :=
  (Matching.matching view q.condition entries).map
    (projectedRow view (projectionOf (orderedColumns q)))

/-- The rows of an ordered query before they are cut, sorted by the columns at the positions
given. -/
def orderedRows (view : Examiner) (noneFirst : Bool) (q : QueryInstruction)
    (keys : List (Nat × Direction)) (entries : List Entry) : List ResultRow :=
  (Stage.sortedRows noneFirst keys (rowsToSort view q entries)).filterMap fun r =>
    resultRow? (orderedColumns q) (.projected r)

/-- What an ordered query shows of the rows that its pipeline makes. -/
def resultSetOf (q : QueryInstruction) (rows : List Row) : ResultSet where
  columns := orderedColumns q
  rows := cut (Matching.limitOf q.limit.toInt) (rows.filterMap (resultRow? (orderedColumns q)))

theorem resultRow?_projectedRow (view : Examiner) (columns : List ResultColumn) (e : Entry) :
    resultRow? columns (.projected (projectedRow view (projectionOf columns) e)) =
      some (shownRow columns view e) := by
  have hshows : ∀ c : ResultColumn,
      Column.shows { path := c.path, alias? := some c.title } (view e c.path) =
        shown (view e c.path) :=
    fun c => Column.shows_of_any rfl _
  have hzip : (columns.map (·.title)).zip (projectedRow view (projectionOf columns) e).columns =
      shownColumns columns (view e) := by
    simp only [projectedRow, projectionOf, shownColumns, List.map_map, List.zip_map',
      Function.comp_apply, hshows]
  exact congrArg (fun pairs => some (ResultRow.mk e (Cells.ofFound pairs))) hzip

/-- **But for their order, the rows of an ordered query are those that matching gives** for
the same columns, unless sorting them breaks off. -/
theorem orderedRows_perm {view : Examiner} {noneFirst : Bool} {q : QueryInstruction}
    {keys : List (Nat × Direction)} {entries : List Entry} {sorted : List ProjectedRow}
    (h : Stage.sortRows noneFirst keys (rowsToSort view q entries) = some sorted) :
    (orderedRows view noneFirst q keys entries).Perm
      ((Matching.matching view q.condition entries).map (shownRow (orderedColumns q) view)) := by
  have hsorted := (Stage.sortRows_perm h).filterMap
    fun r => resultRow? (orderedColumns q) (.projected r)
  rw [rowsToSort, List.filterMap_map] at hsorted
  have hrow : (fun r => resultRow? (orderedColumns q) (.projected r)) ∘
      projectedRow view (projectionOf (orderedColumns q)) =
      fun e => some (shownRow (orderedColumns q) view e) :=
    funext fun e => resultRow?_projectedRow view (orderedColumns q) e
  rw [hrow, List.filterMap_eq_map'] at hsorted
  rwa [orderedRows, Stage.sortedRows, h]

/-- Where sorting breaks off, an ordered query has no rows. -/
theorem orderedRows_eq_nil {view : Examiner} {noneFirst : Bool} {q : QueryInstruction}
    {keys : List (Nat × Direction)} {entries : List Entry}
    (h : Stage.sortRows noneFirst keys (rowsToSort view q entries) = none) :
    orderedRows view noneFirst q keys entries = [] := by
  rw [orderedRows, Stage.sortedRows, h]
  rfl

section Evaluation

variable {P : Lookups → Prop} {examiner view : Examiner} {entries : List Entry}

/-- **What an ordered query gives**: its columns, and its rows cut to the limit. It never
fails. -/
theorem gives_runOrdered (h : AnsweredBy P examiner view entries) (settings : Settings)
    (q : QueryInstruction) {keys : List (Nat × Direction)}
    (hkeys : Sorting.positions (projectionOf (orderedColumns q)) q.sort = .ok keys) :
    Gives P (runOrdered examiner settings q entries).run
      (.ok { columns := orderedColumns q,
             rows := cut (Matching.limitOf q.limit.toInt)
               (orderedRows view settings.nullsFirst q keys entries) }) := by
  obtain ⟨kept, hkept, hkeptRows⟩ := Stage.gives_run_filter h (Stream.rows_scan entries)
    settings.nullsFirst q.condition none
  have hmatching : AnsweredBy P examiner view (Matching.matching view q.condition entries) :=
    h.mono fun e he => (Matching.mem_matching.1 he).1
  obtain ⟨made, hmade, hmadeRows⟩ := Stage.gives_run_project hmatching hkeptRows
    settings.nullsFirst (projectionOf (orderedColumns q)) none
  have hsorted := Stage.rows_sortStream settings.nullsFirst keys
    (projectionOf (orderedColumns q)) hmadeRows
  have hcollect := Pipeline.gives_collect (stages_orderedSteps hkeys)
    (Pipeline.gives_outputs_cons hkept (Pipeline.gives_outputs_cons hmade
      (Pipeline.gives_outputs_cons (Gives.pure _) (Gives.pure _))))
  -- what is collected are the rows of the sorting stage, which is the last
  have hlast : (Pipeline.lastOutput (Stream.scan (entries.map .ok))
      [kept, made, Stage.sortStream settings.nullsFirst keys
        (projectionOf (orderedColumns q)) made]).rows = _ := hsorted
  rw [hlast] at hcollect
  have hrun : Gives P (runOrdered examiner settings q entries).run _ :=
    hcollect.bindExcept (g := fun rows => .ok (resultSetOf q rows)) fun _ _ => Gives.pure _
  have hrows : (resultSetOf q ((Stage.sortedRows settings.nullsFirst keys
      (rowsToSort view q entries)).map .projected)).rows =
      cut (Matching.limitOf q.limit.toInt)
        (orderedRows view settings.nullsFirst q keys entries) :=
    congrArg (cut _) (List.filterMap_map ..)
  rwa [← hrows]

end Evaluation

end Execute

end ObjectQuery
