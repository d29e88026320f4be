import ObjectQuery.Proofs.Pipeline.Sort
import ObjectQuery.Proofs.Session.Brings

/-!
# Queries with and without an order

A query goes one of two ways: entries are matched one by one, or they go through a
pipeline that sorts what it projects. Under an invariant of the lookups both ways come to
a result set that is known in advance, and neither ever fails (`Execute.gives_resultOf`).

The two ways agree (`Execute.runQuery_agrees`): with the same lookups at the start, the
rows of an ordered query are about the entries that the query shows without its order, and
show the same under every title that was asked for. This needs nothing of what is kept:
the invariant is what the state at the start answers, be that faithful or not. One thing
may come between them, and that is numbers: where a double is equal to two integers that
are not equal, sorting may break off, and then the ordered query shows nothing at all
(`Execute.runQuery_loses_rows`).
-/

namespace ObjectQuery

namespace Execute

/-! ### What a query gives -/

section Evaluation

variable {P : Lookups → Prop} {examiner view : Examiner} {entries : List Entry}

/-- What an unordered query gives: its columns, and the rows collected up to the limit. -/
theorem gives_runUnordered (h : AnsweredBy P examiner view entries) (q : QueryInstruction) :
    Gives P (runUnordered examiner q entries)
      { columns := q.columns,
        rows := Matching.collected (Matching.rowOf view (requestOf q))
          (Matching.limitOf q.limit.toInt) [] entries } :=
  (Matching.gives_collect h (requestOf q) []).bind (Gives.pure _)

/-- **Every query comes to a result set.** -/
theorem gives_resultOf (h : AnsweredBy P examiner view entries) (settings : Settings)
    (q : QueryInstruction) :
    ∃ result, Gives P (resultOf examiner settings q entries).run (.ok result) := by
  rw [resultOf]
  split
  · exact ⟨_, (gives_runUnordered h q).lift⟩
  · obtain ⟨keys, hkeys⟩ := exists_positions q
    exact ⟨_, gives_runOrdered h settings q hkeys⟩

/-- What a query without an order and without a limit shows of entries. -/
def unorderedResult (view : Examiner) (q : QueryInstruction) (entries : List Entry) :
    ResultSet where
  columns := q.columns
  rows := (Matching.matching view q.condition entries).map (shownRow q.columns view)

theorem gives_resultOf_unordered (h : AnsweredBy P examiner view entries) (hn : Numbered entries)
    (settings : Settings) {q : QueryInstruction} (hsort : q.sort = [])
    (hlimit : q.limit.toInt ≤ 0) :
    Gives P (resultOf examiner settings q entries).run (.ok (unorderedResult view q entries)) := by
  have hnone : (requestOf q).limit = none := if_neg (by omega)
  rw [resultOf, hsort, if_pos List.isEmpty_nil]
  have hrun : Gives P (runUnordered examiner q entries) (unorderedResult view q entries) :=
    (Matching.gives_run_unlimited h hn hnone).bind (Gives.pure _)
  exact hrun.lift

/-- What a query with an order and without a limit shows of entries: what is left of its
rows when they have been sorted by the columns at the positions given. -/
def orderedResult (view : Examiner) (noneFirst : Bool) (q : QueryInstruction)
    (keys : List (Nat × Direction)) (entries : List Entry) : ResultSet where
  columns := orderedColumns q
  rows := orderedRows view noneFirst q keys entries

theorem gives_resultOf_ordered (h : AnsweredBy P examiner view entries) (settings : Settings)
    {q : QueryInstruction} (hsort : q.sort ≠ []) (hlimit : q.limit.toInt ≤ 0)
    {keys : List (Nat × Direction)}
    (hkeys : Sorting.positions (projectionOf (orderedColumns q)) q.sort = .ok keys) :
    Gives P (resultOf examiner settings q entries).run
      (.ok (orderedResult view settings.nullsFirst q keys entries)) := by
  have hnone : Matching.limitOf q.limit.toInt = none := if_neg (by omega)
  have hrun := gives_runOrdered h settings q hkeys
  rw [hnone] at hrun
  rw [resultOf, if_neg (by simpa using hsort)]
  exact hrun

end Evaluation

/-! ### Both ways agree -/

/-- The result of an ordered query agrees with the result of the same query without its
order: it is about the same entries, each once, and shows the same under every title
asked for. What it shows besides stands under the identifiers of sort keys that are
neither a title nor a path of a column asked for, each of which has one column more. -/
structure Agrees (q : QueryInstruction) (ordered unordered : ResultSet) : Prop where
  entries : (ordered.rows.map (·.entry)).Perm (unordered.rows.map (·.entry))
  once : (ordered.rows.map (·.entry)).Nodup
  cells : ∀ row ∈ ordered.rows, ∀ row' ∈ unordered.rows, row.entry = row'.entry →
    ∀ c ∈ q.columns, ∃ cell,
      row.cells.lookup c.title = some cell ∧ row'.cells.lookup c.title = some cell
  distinct : ∀ row ∈ ordered.rows, (row.cells.map Prod.fst).Nodup
  titles : ∀ row ∈ ordered.rows, ∀ title, title ∈ row.cells.map Prod.fst ↔
    (∃ c ∈ q.columns, c.title = title) ∨
    (∃ k ∈ q.sort, k.identifier = title) ∧ ∀ c ∈ q.columns, c.title ≠ title ∧ c.path ≠ title
  columns : ∃ names : List String, names.Nodup ∧
    ordered.columns = q.columns ++ names.map (fun name => ⟨name, name⟩) ∧
    ∀ name, name ∈ names ↔ (∃ k ∈ q.sort, k.identifier = name) ∧
      ∀ c ∈ q.columns, c.title ≠ name ∧ c.path ≠ name

theorem any_goesBy_eq_false {columns : List ResultColumn} {name : String} :
    columns.any (goesBy name) = false ↔ ∀ c ∈ columns, c.title ≠ name ∧ c.path ≠ name := by
  simp [List.any_eq_false, goesBy]

/-- Rows for the columns of an ordered query agree with rows for those asked for. -/
theorem agrees_of_perm {view : Examiner} {q : QueryInstruction} {es : List Entry}
    (hnodup : es.Nodup) {rows : List ResultRow}
    (hrows : rows.Perm (es.map (shownRow (orderedColumns q) view))) :
    Agrees q { columns := orderedColumns q, rows }
      { columns := q.columns, rows := es.map (shownRow q.columns view) } := by
  obtain ⟨names, hcolumns, hnames, hmem⟩ := orderedColumns_eq q
  simp only [any_goesBy_eq_false] at hmem
  have hentries : ∀ columns, (es.map (shownRow columns view)).map (·.entry) = es := by
    intro columns
    rw [List.map_map]
    exact List.map_id es
  have hperm : (rows.map (·.entry)).Perm es := by
    have := hrows.map (·.entry)
    rwa [hentries] at this
  -- every row is the one that an entry has
  have hrow : ∀ row ∈ rows, ∃ e ∈ es, shownRow (orderedColumns q) view e = row :=
    fun row h => List.mem_map.1 (hrows.mem_iff.1 h)
  have hshows : ∀ columns e, (shownRow columns view e).cells.Shows columns (view e) :=
    fun columns e => Cells.shows_ofFound columns (view e)
  refine ⟨?_, hperm.nodup_iff.2 hnodup, ?_, ?_, ?_, ⟨names, hnames, hcolumns, hmem⟩⟩
  · rwa [hentries]
  · intro row h row' h' hentry c hc
    obtain ⟨e, -, rfl⟩ := hrow row h
    obtain ⟨e', -, rfl⟩ := List.mem_map.1 h'
    obtain rfl : e = e' := hentry
    obtain ⟨cell, hcell⟩ := (hshows q.columns e).exists_cell hc
    refine ⟨cell, ?_, hcell⟩
    -- a column for a sort key never takes a title that was asked for
    have hown : ∀ d ∈ ownColumns names, d.title ≠ c.title := by
      intro d hd
      obtain ⟨name, hname, rfl⟩ := List.mem_map.1 hd
      exact Ne.symm (((hmem name).1 hname).2 c hc).1
    rw [← hcell, shownRow, hcolumns]
    exact Cells.lookup_shownColumns_append hown (view e)
  · intro row h
    obtain ⟨e, -, rfl⟩ := hrow row h
    exact (hshows _ e).nodup_titles
  · intro row h title
    obtain ⟨e, -, rfl⟩ := hrow row h
    rw [(hshows _ e).titles, hcolumns]
    simp only [List.mem_append, or_and_right, exists_or]
    rw [exists_title_ownColumns, hmem]

/-- **The ordered way of a query agrees with the unordered one**, or else it has lost all its
rows, and that only where a double among the values under a sort key blurs two integers. -/
theorem agrees_or_blurs {view : Examiner} {q : QueryInstruction} {entries : List Entry}
    (hn : Numbered entries) (noneFirst : Bool) {keys : List (Nat × Direction)}
    (hkeys : Sorting.positions (projectionOf (orderedColumns q)) q.sort = .ok keys) :
    Agrees q (orderedResult view noneFirst q keys entries) (unorderedResult view q entries) ∨
      orderedRows view noneFirst q keys entries = [] ∧
        Sorting.BlursUnder (projectionOf (orderedColumns q)) q.sort
          (rowsToSort view q entries) := by
  cases hsorted : Stage.sortRows noneFirst keys (rowsToSort view q entries) with
  | some sorted => exact .inl (agrees_of_perm (hn.filter _).nodup (orderedRows_perm hsorted))
  | none =>
    exact .inr ⟨orderedRows_eq_nil hsorted, Stage.blursUnder_of_sortRows_eq_none hkeys hsorted⟩

/-- What the two ways of a query come to in a session. -/
theorem runQuery_both_ways {session : Session} (hs : session.store.Reachable) (a : Access)
    (settings : Settings) {q : QueryInstruction} (hsort : q.sort ≠ [])
    (hlimit : q.limit.toInt ≤ 0) {keys : List (Nat × Direction)}
    (hkeys : Sorting.positions (projectionOf (orderedColumns q)) q.sort = .ok keys) :
    ((runQuery a settings q).run.run session).1 =
        .ok (.queried q.text (orderedResult (session.lookups.answer a.examine) settings.nullsFirst
          q keys (session.store.get q.target))) ∧
      ((runQuery a settings { q with sort := [] }).run.run session).1 =
        .ok (.queried q.text (unorderedResult (session.lookups.answer a.examine) q
          (session.store.get q.target))) := by
  obtain ⟨s, l⟩ := session
  have hn := hs.wellNumbered.numbered_get q.target
  have hview := Lookups.answeredBy_answer hn a.examine l
  have hordered := gives_resultOf_ordered hview settings hsort hlimit hkeys
  have hunordered := gives_resultOf_unordered hview hn settings
    (q := { q with sort := [] }) rfl hlimit
  obtain ⟨_, -, hrun⟩ := brings_runQuery hordered l fun _ _ _ => rfl
  obtain ⟨_, -, hrun'⟩ := brings_runQuery hunordered l fun _ _ _ => rfl
  exact ⟨congrArg Prod.fst hrun, congrArg Prod.fst hrun'⟩

/-- **The ordered and the unordered way of a query agree**, from every session whose store
is reachable, whatever has been looked up in it and whichever lookups fail. Neither way
fails, so no sort key is ever unknown. The one exception is an ordered query without any
rows, which there may be where a double among the values under a sort key blurs two
integers. -/
theorem runQuery_agrees {session : Session} (hs : session.store.Reachable) (a : Access)
    (settings : Settings) {q : QueryInstruction} (hsort : q.sort ≠ [])
    (hlimit : q.limit.toInt ≤ 0) :
    ∃ ordered unordered : ResultSet,
      ((runQuery a settings q).run.run session).1 = .ok (.queried q.text ordered) ∧
      ((runQuery a settings { q with sort := [] }).run.run session).1 =
        .ok (.queried q.text unordered) ∧
      (Agrees q ordered unordered ∨
        ordered.rows = [] ∧
          Sorting.BlursUnder (projectionOf (orderedColumns q)) q.sort
            (rowsToSort (session.lookups.answer a.examine) q (session.store.get q.target))) := by
  obtain ⟨keys, hkeys⟩ := exists_positions q
  obtain ⟨hordered, hunordered⟩ := runQuery_both_ways hs a settings hsort hlimit hkeys
  have hn := hs.wellNumbered.numbered_get q.target
  exact ⟨_, _, hordered, hunordered, agrees_or_blurs hn settings.nullsFirst hkeys⟩

end Execute

/-! ### Two lamps -/

/-- Everything in the schema `house`. -/
def house : Target := { schemas := NameSet.ofList ["house"] }

/-- Two lamps of a house, of which only the second stands in a room, and a road. -/
def twoLamps : Store :=
  let s := Store.add {} "lamps/1" "house" "Lamp" (.object [("name", .string "ceiling")])
  let s := s.add "roads/1" "town" "Road" (.object [("name", .string "high street")])
  s.add "lamps/2" "house" "Lamp" (.object [("name", .string "desk"), ("room", .string "study")])

theorem reachable_twoLamps : twoLamps.Reachable :=
  ((Store.Reachable.empty.add _ _ _ _).add _ _ _ _).add _ _ _ _

/-- The session in which the house has been indexed. -/
def indexedLamps : Session where
  store := (twoLamps.refresh .initial house).2

/-- The names of what stands in a house, by a room that is not shown. -/
def byRoom : QueryInstruction where
  target := house
  condition := [⟨.and, .assertion "name" (.predicate .isPresent)⟩]
  columns := [⟨"name", "Name"⟩]
  sort := [⟨"room", .descending⟩, ⟨"name", .ascending⟩]

theorem Execute.runQuery_agrees_byRoom :
    (indexedLamps.store.Reachable ∧ byRoom.sort ≠ [] ∧ byRoom.limit.toInt ≤ 0) ∧
    ∃ ordered unordered : ResultSet,
      ((Execute.runQuery twoLamps.access {} byRoom).run.run indexedLamps).1 =
        .ok (.queried byRoom.text ordered) ∧
      ((Execute.runQuery twoLamps.access {} { byRoom with sort := [] }).run.run indexedLamps).1 =
        .ok (.queried byRoom.text unordered) ∧
      (Execute.Agrees byRoom ordered unordered ∨
        ordered.rows = [] ∧
          Sorting.BlursUnder (Execute.projectionOf (Execute.orderedColumns byRoom)) byRoom.sort
            (Execute.rowsToSort (indexedLamps.lookups.answer twoLamps.examine) byRoom
              (indexedLamps.store.get byRoom.target))) :=
  have hreachable : indexedLamps.store.Reachable := reachable_twoLamps.refresh .initial house
  ⟨⟨hreachable, by decide, by decide⟩,
    Execute.runQuery_agrees hreachable twoLamps.access {} (by decide) (by decide)⟩

/-- The room gets a column, which is empty where nothing is found; such rows come first. -/
example :
    (((Execute.runQuery twoLamps.access {} byRoom).run.run indexedLamps).1.map fun
      | .queried _ result => result.rows.map fun row =>
          (row.entry.uri, row.cells.map fun (title, cell) => (title, cell.text))
      | .indexed _ _ => []) =
      .ok [("lamps/1", [("Name", "ceiling"), ("room", "")]),
        ("lamps/2", [("Name", "desk"), ("room", "study")])] :=
  rfl

/-! ### Twenty-two boxes -/

/-- Everything in the schema `storage`. -/
def storage : Target := { schemas := NameSet.ofList ["storage"] }

/-- Puts a box of a weight into a store. -/
def Store.addBox (s : Store) (box : String × Number) : Store :=
  s.add box.1 "storage" "Box" (.object [("weight", .number box.2)])

/-- The boxes, each with its weight. -/
def boxes : List (String × Number) :=
  ["a", "b", "c", "d", "e", "f", "g", "h", "i", "j", "k", "l", "m", "n", "o", "p", "q", "r", "s",
    "t", "u", "v"].zip blurredWeights

/-- The session in which the boxes have been indexed. -/
def indexedBoxes : Session where
  store := ((boxes.foldl Store.addBox {}).refresh .initial storage).2

theorem reachable_foldl_addBox {s : Store} (h : s.Reachable) (boxes : List (String × Number)) :
    (boxes.foldl Store.addBox s).Reachable := by
  induction boxes generalizing s with
  | nil => exact h
  | cons box rest ih => exact ih (h.add _ _ _ _)

/-- The weights of all boxes, in order. -/
def byWeight : QueryInstruction where
  target := storage
  columns := [⟨"weight", "Weight"⟩]
  sort := [⟨"weight", .ascending⟩]

/-- **Where numbers blur, an ordered query loses its rows**: it shows none of the boxes, all of
which it shows without its order. -/
theorem Execute.runQuery_loses_rows :
    (indexedBoxes.store.Reachable ∧ byWeight.sort ≠ [] ∧ byWeight.limit.toInt ≤ 0) ∧
    ∃ ordered unordered : ResultSet,
      ((Execute.runQuery indexedBoxes.store.access {} byWeight).run.run indexedBoxes).1 =
        .ok (.queried byWeight.text ordered) ∧
      ((Execute.runQuery indexedBoxes.store.access {} { byWeight with sort := [] }).run.run
        indexedBoxes).1 = .ok (.queried byWeight.text unordered) ∧
      ordered.rows = [] ∧ unordered.rows.length = 22 ∧
      ¬Execute.Agrees byWeight ordered unordered := by
  have hreachable : indexedBoxes.store.Reachable :=
    (reachable_foldl_addBox .empty boxes).refresh .initial storage
  have hkeys : Sorting.positions (projectionOf (orderedColumns byWeight)) byWeight.sort =
      .ok [(0, .ascending)] := by
    decide
  obtain ⟨hordered, hunordered⟩ := runQuery_both_ways hreachable indexedBoxes.store.access {}
    (q := byWeight) (by decide) (by decide) hkeys
  have hlost : Stage.sortRows true [(0, .ascending)] (rowsToSort
      (indexedBoxes.lookups.answer indexedBoxes.store.access.examine) byWeight
      (indexedBoxes.store.get byWeight.target)) = none := by
    decide +kernel
  have hnil := orderedRows_eq_nil hlost
  have hlength : (unorderedResult (indexedBoxes.lookups.answer
      indexedBoxes.store.access.examine) byWeight
      (indexedBoxes.store.get byWeight.target)).rows.length = 22 := by
    decide +kernel
  refine ⟨⟨hreachable, by decide, by decide⟩, _, _, hordered, hunordered, hnil, hlength,
    fun hagrees => ?_⟩
  -- the entries would have to be as many
  have hentries := hagrees.entries.length_eq
  rw [List.length_map, List.length_map, hlength, orderedResult, hnil] at hentries
  cases hentries

end ObjectQuery
