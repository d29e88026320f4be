import ObjectQuery.Proofs.Pipeline.Passes

/-!
# Filtering what is projected

A filter behind a projection evaluates its condition against projected rows. A path that the
projection shows is read from its column, the first of them if there are several, and only
any other path is looked up on the entry behind the row. Where the columns take any type and
all lookups are answered, both ways of reading come to the same, so that the row reads as its
entry does (`Subject.view_projectedRow`).

It follows that filtering and projecting commute (`Pipeline.rowsOf_project_filter`): the rows
are those of the entries that fulfil the condition, whichever of the two comes first. What is
looked up is not the same. A filter in front of the projection asks for all that its condition
reaches, and a filter behind it only for what is not shown; a projection in front of the
filter asks for its columns of all entries, and one behind it only of those that are left. But
in each of these passes entries of one number are asked for the same paths, and that is all
that matters (`Stage.passes_settled`).
-/

namespace ObjectQuery

namespace Subject

variable {examiner view : Examiner} {p : Projection} {e : Entry} {path : String}

/-- A path reads the first column that shows it. -/
theorem column?_projectedRow (view : Examiner) (p : Projection) (e : Entry) (path : String) :
    column? (projectedRow view p e) p path =
      (p.column? path).map fun c => c.shows (view e path) := by
  have hcolumns : ∀ i : Nat, (projectedRow view p e).columns[i]? =
      (p[i]?).map fun c => c.shows (view e c.path) := fun i => List.getElem?_map ..
  have hmap : column? (projectedRow view p e) p path =
      (p.column? path).map fun c => c.shows (view e c.path) := by
    simp only [column?, hcolumns, Projection.column?_eq_bind, Option.map_bind, Function.comp_def]
  rw [hmap]
  cases hcolumn : p.column? path with
  | none => rfl
  | some c => rw [Option.map_some, Option.map_some, Projection.path_of_column? hcolumn]

/-- A path that is shown reads what was found, in a column of any type. -/
theorem read_projectedRow_of_mem (htypes : ∀ c ∈ p, c.type = .any) {found : Found}
    (hfound : view e path = .ok found) (hpath : path ∈ p.paths) :
    (Subject.row (projectedRow view p e) p).read examiner path = pure found := by
  cases hcolumn : p.column? path with
  | none => exact absurd hpath (Projection.column?_eq_none_iff.1 hcolumn)
  | some c =>
    refine read_row_of_some ?_
    rw [column?_projectedRow, hcolumn, Option.map_some, hfound,
      Column.shows_of_any (htypes c (Projection.mem_of_column? hcolumn))]
    rfl

/-- Any other path is looked up on the entry. -/
theorem read_projectedRow_of_not_mem (hpath : path ∉ p.paths) :
    (Subject.row (projectedRow view p e) p).read examiner path =
      LookupM.discover examiner e path := by
  rw [read_row_of_none (by rw [column?_projectedRow, Projection.column?_eq_none_iff.2 hpath]; rfl)]
  rfl

/-- **A projected row reads as its entry does**, on paths that are answered in the state as
they were when the row was made. -/
theorem view_projectedRow (htypes : ∀ c ∈ p, c.type = .any) {l : Lookups}
    (hshown : path ∈ p.paths → ∃ found, view e path = .ok found)
    (hbehind : path ∉ p.paths → l.answer examiner e path = view e path) :
    (Subject.row (projectedRow view p e) p).view examiner l path = view e path := by
  rw [Subject.view]
  by_cases hpath : path ∈ p.paths
  · obtain ⟨found, hfound⟩ := hshown hpath
    rw [read_projectedRow_of_mem htypes hfound hpath, hfound]
    rfl
  · rw [read_projectedRow_of_not_mem hpath, Lookups.fst_discover, hbehind hpath]

/-- Reading a projected row puts questions about the paths that are not shown. -/
theorem after_projectedRow (view : Examiner) (p : Projection) (e : Entry) (l : Lookups)
    (paths : List String) :
    (Subject.row (projectedRow view p e) p).after examiner l paths =
      l.after examiner ((paths.filter (· ∉ p.paths)).map (e, ·)) := by
  induction paths generalizing l with
  | nil => rfl
  | cons path rest ih =>
    change after examiner _
      (((Subject.row (projectedRow view p e) p).read examiner path).run.run l).2 rest = _
    rw [ih, List.filter_cons]
    by_cases hpath : path ∈ p.paths
    · cases hcolumn : p.column? path with
      | none => exact absurd hpath (Projection.column?_eq_none_iff.1 hcolumn)
      | some c =>
        have hread : column? (projectedRow view p e) p path = some (c.shows (view e path)) := by
          rw [column?_projectedRow, hcolumn, Option.map_some]
        rw [read_row_of_some hread, if_neg (by simpa using hpath)]
        rfl
    · rw [read_projectedRow_of_not_mem hpath, if_pos (by simpa using hpath)]
      rfl

end Subject

namespace Stage

variable {examiner : Examiner} {entries : List Entry} {l l' : Lookups}

/-- The leader of an entry is answered as the entry is. -/
theorem leading_leader {e : Entry} (he : e ∈ entries) :
    l.leading examiner entries (leader entries e) = l.leading examiner entries e :=
  congrArg (l.answer examiner) (leader_congr (leader_mem he) (leader_id entries e))

/-- Projecting entries, where leaders are answered as at the start. -/
theorem passes_project_leading (target : Projection) (declared? : Option Projection)
    (hanswers : ∀ e ∈ entries, ∀ path ∈ target.paths, ∃ found, examiner e path = .ok found)
    (h : Lookups.Upholds examiner entries l l') :
    (passes (projectRow examiner target declared?) (entries.map .entry) l').1 =
        (entries.map (projectedRow (l.leading examiner entries) target)).map .projected ∧
      Lookups.Upholds examiner entries l
        (passes (projectRow examiner target declared?) (entries.map .entry) l').2 := by
  have hpasses := passes_settled (projectRow examiner target declared?) .entry
    (fun e => .ok (some (.projected (projectedRow (l.leading examiner entries) target e))))
    (fun _ => target.paths) (fun e he l' h hsettled => ?_) (fun _ _ => rfl) hanswers h
  · refine hpasses.imp_left fun hrows => hrows.trans ?_
    rw [List.map_map]
    exact congrFun List.filterMap_eq_map' entries
  · have hrow : projectedRow (l'.answer examiner) target e =
        projectedRow (l.leading examiner entries) target e :=
      congrArg (ProjectedRow.mk (some e)) <| List.map_congr_left fun c hc => by
        rw [h.answer_eq he (hsettled c.path (Projection.mem_paths hc))]
    rw [run_projectRow_entry, hrow]

/-- Filtering rows of entries, where leaders are answered as at the start, if the rows read
as their entries do. -/
theorem passes_filter_leading {c : Condition} {declared? : Option Projection} (row : Entry → Row)
    (subjectOf : Entry → Subject) (asked : Entry → List String)
    (hsubject : ∀ e ∈ entries, subject declared? (row e) = .ok (subjectOf e))
    (hview : ∀ e ∈ entries, ∀ l', Lookups.Upholds examiner entries l l' →
      (∀ path ∈ asked e, Lookups.Settled entries l' e path) →
      ∀ path ∈ Condition.reached (l.leading examiner entries e) c,
        (subjectOf e).view examiner l' path = l.leading examiner entries e path)
    (hafter : ∀ e ∈ entries, ∀ l',
      (subjectOf e).after examiner l' (Condition.reached (l.leading examiner entries e) c) =
        l'.after examiner ((asked e).map (e, ·)))
    (hasked : ∀ e ∈ entries, asked (leader entries e) = asked e)
    (hanswered : ∀ e ∈ entries, ∀ path ∈ asked e, ∃ found, examiner e path = .ok found)
    (h : Lookups.Upholds examiner entries l l') :
    (passes (filterRow examiner c declared?) (entries.map row) l').1 =
        (Matching.matching (l.leading examiner entries) c entries).map row ∧
      Lookups.Upholds examiner entries l
        (passes (filterRow examiner c declared?) (entries.map row) l').2 := by
  have hpasses := passes_settled (filterRow examiner c declared?) row
    (fun e => kept (Condition.verdict (l.leading examiner entries e) c) (row e)) asked
    (fun e he l' h hsettled => ?_) hasked hanswered h
  · exact hpasses.imp_left fun hrows => hrows.trans (filterMap_kept ..)
  · obtain ⟨hverdict, hreached⟩ := Condition.verdict_congr c (hview e he l' h hsettled)
    rw [run_filterRow (hsubject e he), hverdict, hreached, hafter e he]

/-- Filtering entries. -/
theorem passes_filter_entries (c : Condition) (declared? : Option Projection)
    (hanswers : ∀ e ∈ entries, ∀ path ∈ Condition.paths c, ∃ found, examiner e path = .ok found)
    (h : Lookups.Upholds examiner entries l l') :
    (passes (filterRow examiner c declared?) (entries.map .entry) l').1 =
        (Matching.matching (l.leading examiner entries) c entries).map .entry ∧
      Lookups.Upholds examiner entries l
        (passes (filterRow examiner c declared?) (entries.map .entry) l').2 := by
  refine passes_filter_leading .entry .entry
    (fun e => Condition.reached (l.leading examiner entries e) c) (fun _ _ => rfl)
    (fun e he l' h hsettled path hpath => ?_) (fun e _ l' => Subject.after_entry e l' _)
    (fun e he => by rw [leading_leader he])
    (fun e he path hpath => hanswers e he path (Condition.reached_subset c hpath)) h
  rw [Subject.view_entry]
  exact h.answer_eq he (hsettled path hpath)

/-- Filtering what entries show in columns of any type. -/
theorem passes_filter_projected {target : Projection} (htypes : ∀ col ∈ target, col.type = .any)
    (c : Condition)
    (hanswers : ∀ e ∈ entries, ∀ path ∈ target.paths ++ Condition.paths c,
      ∃ found, examiner e path = .ok found)
    (h : Lookups.Upholds examiner entries l l') :
    (passes (filterRow examiner c (some target))
        ((entries.map (projectedRow (l.leading examiner entries) target)).map .projected) l').1 =
      ((Matching.matching (l.leading examiner entries) c entries).map
        (projectedRow (l.leading examiner entries) target)).map .projected := by
  rw [List.map_map, List.map_map]
  refine (passes_filter_leading _
    (fun e => .row (projectedRow (l.leading examiner entries) target e) target)
    (fun e => (Condition.reached (l.leading examiner entries e) c).filter (· ∉ target.paths))
    (fun _ _ => rfl) (fun e he l' h hsettled path hpath => ?_)
    (fun e _ l' => Subject.after_projectedRow _ target e l' _)
    (fun e he => by rw [leading_leader he])
    (fun e he path hpath => hanswers e he path (List.mem_append_right _
      (Condition.reached_subset c (List.mem_filter.1 hpath).1))) h).1
  refine Subject.view_projectedRow htypes (fun hshown => ?_) fun hbehind => ?_
  · exact Lookups.exists_answer_eq_ok
      (hanswers _ (leader_mem he) path (List.mem_append_left _ hshown))
  · exact h.answer_eq he (hsettled path (List.mem_filter.2 ⟨hpath, by simpa using hbehind⟩))

/-- Whether an entry fulfils a condition is decided by its leader, so that the leaders of the
entries that do are among them. -/
theorem upholds_matching (c : Condition) (h : Lookups.Upholds examiner entries l l') :
    Lookups.Upholds examiner (Matching.matching (l.leading examiner entries) c entries) l l' ∧
      ∀ e ∈ Matching.matching (l.leading examiner entries) c entries,
        l.leading examiner (Matching.matching (l.leading examiner entries) c entries) e =
          l.leading examiner entries e := by
  have hleading : ∀ e ∈ entries, ∀ e' ∈ entries, e.id = e'.id →
      l.leading examiner entries e = l.leading examiner entries e' := fun e he e' _ hid =>
    congrArg (l.answer examiner) (leader_congr he hid)
  refine ⟨h.filter fun e he e' he' hid => by rw [hleading e he e' he' hid], fun e he => ?_⟩
  have hmem := (Matching.mem_matching.1 he).1
  refine congrArg (l.answer examiner) (leader_filter fun e' he' hid => ?_)
  rw [hleading e' he' e hmem hid]
  exact (List.mem_filter.1 he).2

end Stage

/-- **Evaluating a condition against a projected row** comes to what evaluating it against the
entry comes to, and fails only where equality with a list is asked for. -/
theorem Condition.fst_holds_projectedRow {examiner : Examiner} {target : Projection}
    (htypes : ∀ col ∈ target, col.type = .any) {e : Entry} (c : Condition)
    (hanswers : ∀ path ∈ target.paths ++ paths c, ∃ found, examiner e path = .ok found)
    (l : Lookups) :
    ((holds examiner (.row (projectedRow (l.answer examiner) target e) target) c).run.run
          (l.after examiner (target.paths.map (e, ·)))).1 =
        ((holds examiner (.entry e) c).run.run l).1 ∧
      ∀ failure, ((holds examiner (.entry e) c).run.run l).1 = .error failure →
        failure = Predicate.listOperand := by
  have hview : (Subject.row (projectedRow (l.answer examiner) target e) target).view examiner
      (l.after examiner (target.paths.map (e, ·))) = l.answer examiner e :=
    funext fun path => Subject.view_projectedRow htypes
      (fun hshown => Lookups.exists_answer_eq_ok (hanswers path (List.mem_append_left _ hshown)))
      (fun _ => congrFun (Lookups.answer_after_entry e target.paths l) path)
  rw [fst_holds, fst_holds, hview, Subject.view_entry]
  refine ⟨rfl, fun failure hfails => failure_of_verdict c (fun path hpath => ?_) hfails⟩
  exact Lookups.exists_answer_eq_ok
    (hanswers path (List.mem_append_right _ (reached_subset c hpath)))

namespace Pipeline

section Commuting

variable {target : Projection} {c : Condition} {input : Stream} {entries : List Entry}
  {examiner : Examiner}

/-- Projecting entries, and filtering what they show. -/
theorem rowsOf_filter_behind (noneFirst : Bool) (l : Lookups)
    (htypes : ∀ col ∈ target, col.type = .any)
    (hanswers : ∀ e ∈ entries, ∀ path ∈ target.paths ++ Condition.paths c,
      ∃ found, examiner e path = .ok found)
    (hinput : input.rows = entries.map .entry) :
    rowsOf examiner noneFirst [.project target, .filter c] input l =
      .ok (((Matching.matching (l.leading examiner entries) c entries).map
        (projectedRow (l.leading examiner entries) target)).map .projected) := by
  obtain ⟨hrows, hstate⟩ := Stage.passes_project_leading target input.projection?
    (fun e he path hpath => hanswers e he path (List.mem_append_left _ hpath))
    (Lookups.upholds_refl examiner entries l)
  obtain ⟨hmade, hleft⟩ := Stage.rows_run_project examiner noneFirst input target
    input.projection? l
  have hsecond : stage (Stage.project target input.projection?).declares (.filter c) =
      .ok (.filter c (some target)) := rfl
  rw [rowsOf_pair rfl hsecond, (Stage.rows_run_filter ..).1, hmade, hleft, hinput, hrows,
    Stage.passes_filter_projected htypes c hanswers hstate]

/-- Filtering entries, and projecting those that are left. -/
theorem rowsOf_filter_in_front (noneFirst : Bool) (l : Lookups)
    (hanswers : ∀ e ∈ entries, ∀ path ∈ target.paths ++ Condition.paths c,
      ∃ found, examiner e path = .ok found)
    (hinput : input.rows = entries.map .entry) :
    rowsOf examiner noneFirst [.filter c, .project target] input l =
      .ok (((Matching.matching (l.leading examiner entries) c entries).map
        (projectedRow (l.leading examiner entries) target)).map .projected) := by
  obtain ⟨hrows, hstate⟩ := Stage.passes_filter_entries c input.projection?
    (fun e he path hpath => hanswers e he path (List.mem_append_right _ hpath))
    (Lookups.upholds_refl examiner entries l)
  obtain ⟨hmade, hleft⟩ := Stage.rows_run_filter examiner noneFirst input c input.projection? l
  have hsecond : stage (Stage.filter c input.projection?).declares (.project target) =
      .ok (.project target input.projection?) := rfl
  obtain ⟨hmatching, hleading⟩ := Stage.upholds_matching c hstate
  have hproject := (Stage.passes_project_leading target input.projection?
    (fun e he path hpath =>
      hanswers e (Matching.mem_matching.1 he).1 path (List.mem_append_left _ hpath))
    hmatching).1
  rw [rowsOf_pair rfl hsecond, (Stage.rows_run_project ..).1, hmade, hleft, hinput, hrows,
    hproject]
  -- the entries that are left are led by the same entries as all of them
  refine congrArg (fun rs : List ProjectedRow => Except.ok (rs.map Row.projected)) ?_
  refine List.map_congr_left fun e he => ?_
  rw [projectedRow, projectedRow, hleading e he]

/-- **Filtering commutes with projecting**, in columns of any type and where all that is looked
up is answered: either way the rows are those of the entries that fulfil the condition, in
order. A condition comes to the same for the row of an entry as for the entry, and if it fails,
then because equality with a list is asked for. -/
theorem rowsOf_project_filter (noneFirst : Bool) (l : Lookups)
    (htypes : ∀ col ∈ target, col.type = .any)
    (hanswers : ∀ e ∈ entries, ∀ path ∈ target.paths ++ Condition.paths c,
      ∃ found, examiner e path = .ok found)
    (hinput : input.rows = entries.map .entry) :
    (∃ rs : List ProjectedRow,
      rowsOf examiner noneFirst [.project target, .filter c] input l = .ok (rs.map .projected) ∧
        rowsOf examiner noneFirst [.filter c, .project target] input l = .ok (rs.map .projected) ∧
        rs = (Matching.matching (l.leading examiner entries) c entries).map
          (projectedRow (l.leading examiner entries) target)) ∧
    ∀ e ∈ entries, ∀ l, ∃ r l',
      (Stage.projectRow examiner target input.projection? (.entry e)).run.run l =
          (.ok (some (.projected r)), l') ∧
        ((Condition.holds examiner (.row r target) c).run.run l').1 =
          ((Condition.holds examiner (.entry e) c).run.run l).1 ∧
        ∀ failure, ((Condition.holds examiner (.entry e) c).run.run l).1 = .error failure →
          failure = Predicate.listOperand := by
  refine ⟨⟨_, rowsOf_filter_behind noneFirst l htypes hanswers hinput,
    rowsOf_filter_in_front noneFirst l hanswers hinput, rfl⟩, fun e he l => ?_⟩
  exact ⟨_, _, Stage.run_projectRow_entry target input.projection? e l,
    Condition.fst_holds_projectedRow htypes c (hanswers e he) l⟩

end Commuting

/-! ### Shelves -/

/-- A shelf has a name, a room and two boxes. -/
def shelfExaminer : Examiner := fun e path =>
  if path = "name" then .ok (.primitive (.string e.uri))
  else if path = "room" then .ok (.primitive (.string "cellar"))
  else if path = "boxes" then
    .ok (.list [.primitive (.string "nails"), .primitive (.string "screws")])
  else .error (.discovery path "unreachable")

/-- Two shelves and the first one again. -/
def shelves : List Entry :=
  [⟨1, "oak", "house", "Shelf"⟩, ⟨2, "elm", "house", "Shelf"⟩, ⟨1, "oak", "house", "Shelf"⟩]

/-- The name under two titles, and the boxes between them. -/
def shelfLabel : Projection :=
  [{ path := "name" }, { path := "boxes" }, { path := "name", alias? := some "wood" }]

/-- Named `oak`, with nails in one of the boxes; of any other shelf, its room is compared with
a list. -/
def shelfCondition : Condition :=
  [⟨.and, .assertion "name" (.predicate (.is (.string "oak")))⟩,
   ⟨.and, .condition [⟨.and, .assertion "boxes" (.quantified .any
      [⟨.and, .assertion "" (.predicate (.is (.string "nails")))⟩])⟩]⟩,
   ⟨.or, .assertion "room" (.predicate (.is (.array [.string "cellar"])))⟩]

theorem rowsOf_project_filter_shelves :
    ((∀ col ∈ shelfLabel, col.type = .any) ∧
      (∀ e ∈ shelves, ∀ path ∈ shelfLabel.paths ++ Condition.paths shelfCondition,
        ∃ found, shelfExaminer e path = .ok found) ∧
      ({ rows := shelves.map .entry } : Stream).rows = shelves.map .entry) ∧
    (∃ rs : List ProjectedRow,
      rowsOf shelfExaminer true [.project shelfLabel, .filter shelfCondition]
          { rows := shelves.map .entry } {} = .ok (rs.map .projected) ∧
        rowsOf shelfExaminer true [.filter shelfCondition, .project shelfLabel]
          { rows := shelves.map .entry } {} = .ok (rs.map .projected) ∧
        rs = (Matching.matching (({} : Lookups).leading shelfExaminer shelves) shelfCondition
          shelves).map (projectedRow (({} : Lookups).leading shelfExaminer shelves) shelfLabel)) ∧
    ∀ e ∈ shelves, ∀ l, ∃ r l',
      (Stage.projectRow shelfExaminer shelfLabel none (.entry e)).run.run l =
          (.ok (some (.projected r)), l') ∧
        ((Condition.holds shelfExaminer (.row r shelfLabel) shelfCondition).run.run l').1 =
          ((Condition.holds shelfExaminer (.entry e) shelfCondition).run.run l).1 ∧
        ∀ failure,
          ((Condition.holds shelfExaminer (.entry e) shelfCondition).run.run l).1 = .error failure →
            failure = Predicate.listOperand := by
  have htypes : ∀ col ∈ shelfLabel, col.type = .any := by decide
  have hanswers : ∀ e ∈ shelves, ∀ path ∈ shelfLabel.paths ++ Condition.paths shelfCondition,
      ∃ found, shelfExaminer e path = .ok found := by
    intro e _ path hpath
    have hpaths : shelfLabel.paths ++ Condition.paths shelfCondition =
        ["name", "boxes", "name", "name", "boxes", "room"] := rfl
    simp only [hpaths, List.mem_cons, List.not_mem_nil, or_false] at hpath
    rcases hpath with rfl | rfl | rfl | rfl | rfl | rfl <;> exact ⟨_, rfl⟩
  exact ⟨⟨htypes, hanswers, rfl⟩, rowsOf_project_filter true {} htypes hanswers rfl⟩

/-- The second shelf is left out because its room cannot be compared. -/
example :
    rowsOf shelfExaminer true [.project shelfLabel, .filter shelfCondition]
        { rows := (shelves.take 2).map .entry } {} =
      .ok [.projected ⟨shelves.head?, [.primitive (.string "oak"),
        .list [.primitive (.string "nails"), .primitive (.string "screws")],
        .primitive (.string "oak")]⟩] :=
  rfl

end Pipeline

end ObjectQuery
