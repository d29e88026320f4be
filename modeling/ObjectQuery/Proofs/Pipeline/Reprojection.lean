import ObjectQuery.Proofs.Pipeline.Passes

/-!
# Projecting a projection

Rows that are projected already keep what they have. When they are projected again, a
column whose path they show is taken over, from the first of their columns that shows it,
and the others are looked up on the entry behind the row. The two kinds come mixed, and
`Stage.fill` puts them in order: it gives every column of the target what it would have
gotten had the columns been found one by one (`Stage.fill_sources`).

So projecting in two steps is projecting in one (`Pipeline.rowsOf_project_project`), as
long as no column is taken over under another type than it was looked up for. This holds of
every stream of entries and whatever is kept at the start, and failed lookups show in the
same words. Of what is looked up only the order differs: the first step asks for its columns
of all entries before the second asks for the missing ones. But the two ask for different
paths, and questions about different paths have nothing to do with each other.
-/

namespace ObjectQuery

namespace Stage

variable {examiner : Examiner}

/-- **What is taken over from rows with a value for every column, and what is looked up**. -/
theorem fill_sources (declared : Projection) (known fresh : Column → Found)
    (target : Projection) :
    fill (declared.map known) (sources target declared) ((missing target declared).map fresh) =
      target.map fun c =>
        match declared.column? c.path with
        | some d => known d
        | none => fresh c := by
  rw [fill_eq_map]
  refine List.map_congr_left fun c _ => ?_
  rw [Projection.column?_eq_bind]
  cases hindex : declared.indexOf? c.path with
  | none => rfl
  | some i =>
    obtain ⟨d, hd, -⟩ := (Projection.indexOf?_eq_some_iff.1 hindex).1
    simp only [List.getElem?_map, Option.bind_some, hd, Option.map_some, Option.getD_some]

/-- The paths that are missing are those of the target that are not shown yet. -/
theorem mem_paths_missing {target declared : Projection} {path : String} :
    path ∈ (missing target declared).paths ↔ path ∈ target.paths ∧ path ∉ declared.paths := by
  simp only [Projection.paths, missing, List.mem_map, List.mem_filter, Option.isNone_iff_eq_none,
    Projection.indexOf?_eq_none_iff]
  constructor
  · rintro ⟨c, ⟨hc, hmissing⟩, rfl⟩
    exact ⟨⟨c, hc, rfl⟩, hmissing⟩
  · rintro ⟨⟨c, hc, rfl⟩, hmissing⟩
    exact ⟨c, ⟨hc, hmissing⟩, rfl⟩

/-- Projecting an entry asks for nothing but the paths that are shown. -/
theorem agreeOn_passes_project (examiner : Examiner) (target : Projection)
    (declared? : Option Projection) (entries : List Entry) {l l' : Lookups}
    (h : Lookups.AgreeOn (· ∉ target.paths) l l') :
    Lookups.AgreeOn (· ∉ target.paths)
      (passes (projectRow examiner target declared?) (entries.map .entry) l).2 l' := by
  induction entries generalizing l with
  | nil => exact h
  | cons e rest ih =>
    rw [List.map_cons, passes_cons_some (run_projectRow_entry target declared? e l)]
    refine ih (h.after examiner e target.paths [] fun path hpath => ?_)
    exact iff_of_false hpath List.not_mem_nil

/-- Projecting entries passes on a row for each. -/
theorem exists_passes_project (examiner : Examiner) (target : Projection)
    (declared? : Option Projection) (entries : List Entry) (l : Lookups) :
    ∃ rs : List ProjectedRow,
      (passes (projectRow examiner target declared?) (entries.map .entry) l).1 =
          rs.map .projected ∧
        rs.map (·.backing?) = entries.map some := by
  induction entries generalizing l with
  | nil => exact ⟨[], rfl, rfl⟩
  | cons e rest ih =>
    obtain ⟨rs, hrows, hbacking⟩ := ih (l.after examiner (target.paths.map (e, ·)))
    refine ⟨projectedRow (l.answer examiner) target e :: rs, ?_, ?_⟩
    · rw [List.map_cons, passes_cons_some (run_projectRow_entry target declared? e l), hrows,
        List.map_cons]
    · rw [List.map_cons, hbacking]
      rfl

/-- **One entry, projected in two steps**, shows what it shows when it is projected in one,
if the states answer alike: where the first step is taken for the paths that both steps
show, and where the second step is taken for those that are missing. -/
theorem fill_projectedRow {first target : Projection}
    (htypes : ∀ c ∈ target, ∀ d, first.column? c.path = some d → d.type = c.type) (e : Entry)
    {l₁ l₂ l : Lookups}
    (hknown : Lookups.AgreeOn (fun path => path ∈ first.paths ∧ path ∈ target.paths) l₁ l)
    (hmissing : Lookups.AgreeOn (· ∉ first.paths) l₂ l) :
    fill (projectedRow (l₁.answer examiner) first e).columns (sources target first)
        ((missing target first).map fun c => c.shows (l₂.answer examiner e c.path)) =
      (projectedRow (l.answer examiner) target e).columns := by
  rw [projectedRow, projectedRow, fill_sources]
  refine List.map_congr_left fun c hc => ?_
  cases hcolumn : first.column? c.path with
  | none =>
    rw [hmissing.answer e (Projection.column?_eq_none_iff.1 hcolumn)]
  | some d =>
    have hpath : d.path = c.path := Projection.path_of_column? hcolumn
    have hfirst : c.path ∈ first.paths :=
      hpath ▸ Projection.mem_paths (Projection.mem_of_column? hcolumn)
    change d.shows (l₁.answer examiner e d.path) = _
    rw [hpath, hknown.answer e ⟨hfirst, Projection.mem_paths hc⟩]
    exact Column.shows_congr (htypes c hc d hcolumn) _

/-- **Entries, projected in two steps**, from states that answer alike. -/
theorem passes_project_project (examiner : Examiner) {first target : Projection}
    (htypes : ∀ c ∈ target, ∀ d, first.column? c.path = some d → d.type = c.type)
    (declared? : Option Projection) (entries : List Entry) {l₁ l₂ l : Lookups}
    (hknown : Lookups.AgreeOn (fun path => path ∈ first.paths ∧ path ∈ target.paths) l₁ l)
    (hmissing : Lookups.AgreeOn (· ∉ first.paths) l₂ l) :
    (passes (projectRow examiner target (some first))
        (passes (projectRow examiner first declared?) (entries.map .entry) l₁).1 l₂).1 =
      (passes (projectRow examiner target declared?) (entries.map .entry) l).1 := by
  induction entries generalizing l₁ l₂ l with
  | nil => rfl
  | cons e rest ih =>
    -- a column that the first projection shows is taken over, and the others are asked for now
    have hagain : (projectRow examiner target (some first)
          (.projected (projectedRow (l₁.answer examiner) first e))).run.run l₂ =
        (.ok (some (.projected (projectedRow (l.answer examiner) target e))),
          l₂.after examiner ((missing target first).paths.map (e, ·))) := by
      refine (run_projectRow_projected target first e
        (projectedRow (l₁.answer examiner) first e).columns l₂).trans ?_
      rw [fill_projectedRow htypes e hknown hmissing]
      rfl
    have hrest := ih
      (hknown.after examiner e first.paths target.paths
        fun path hpath => iff_of_true hpath.1 hpath.2)
      (hmissing.after examiner e (missing target first).paths target.paths
        fun path hpath => mem_paths_missing.trans (and_iff_left hpath))
    rw [List.map_cons, passes_cons_some (run_projectRow_entry first declared? e l₁),
      passes_cons_some (run_projectRow_entry target declared? e l), passes_cons_some hagain, hrest]

end Stage

namespace Pipeline

/-- **Projecting a projection is projecting once**: the same rows in the same order, a row
for every entry, with the entry behind it and the same values in its columns. -/
theorem rowsOf_project_project {first target : Projection} {input : Stream}
    {entries : List Entry} (examiner : Examiner) (noneFirst : Bool) (l : Lookups)
    (htypes : ∀ c ∈ target, ∀ d, first.column? c.path = some d → d.type = c.type)
    (hinput : input.rows = entries.map .entry) :
    ∃ rs : List ProjectedRow,
      rowsOf examiner noneFirst [.project first, .project target] input l =
          .ok (rs.map .projected) ∧
        rowsOf examiner noneFirst [.project target] input l = .ok (rs.map .projected) ∧
        rs.map (·.backing?) = entries.map some := by
  obtain ⟨rs, hrows, hbacking⟩ := Stage.exists_passes_project examiner target input.projection?
    entries l
  have honce : rowsOf examiner noneFirst [.project target] input l = .ok (rs.map .projected) := by
    rw [rowsOf_singleton rfl, (Stage.rows_run_project ..).1, hinput, hrows]
  obtain ⟨hmade, hleft⟩ := Stage.rows_run_project examiner noneFirst input first input.projection? l
  have hself : Lookups.AgreeOn (· ∉ first.paths) l l := fun _ _ _ => rfl
  have hasked := Stage.agreeOn_passes_project examiner first input.projection? entries hself
  have htwice := Stage.passes_project_project examiner htypes input.projection? entries
    (fun _ _ _ => rfl) hasked
  have hsecond : stage (Stage.project first input.projection?).declares (.project target) =
      .ok (.project target (some first)) := rfl
  refine ⟨rs, ?_, honce, hbacking⟩
  rw [rowsOf_pair rfl hsecond, (Stage.rows_run_project ..).1, hmade, hleft, hinput, htwice, hrows]

/-! ### Desks -/

/-- A desk has a name and drawers; its weight cannot be looked up. -/
def deskExaminer : Examiner := fun e path =>
  if path = "name" then .ok (.primitive (.string e.uri))
  else if path = "drawers" then .ok (.list [.primitive (.boolean true)])
  else .error (.discovery path "unreachable")

/-- Two desks and the first one again. -/
def desks : List Entry :=
  [⟨1, "oak", "house", "Desk"⟩, ⟨2, "elm", "house", "Desk"⟩, ⟨1, "oak", "house", "Desk"⟩]

/-- The weight, and the name twice, once as a number. -/
def deskLabel : Projection :=
  [{ path := "weight" }, { path := "name", type := .string }, { path := "name", type := .number }]

/-- The drawers between two columns that a label has, one of them under another name. -/
def deskSheet : Projection :=
  [{ path := "name", alias? := some "wood", type := .string }, { path := "drawers", type := .list },
    { path := "weight" }, { path := "name", type := .string }]

theorem rowsOf_project_project_desks :
    ((∀ c ∈ deskSheet, ∀ d, deskLabel.column? c.path = some d → d.type = c.type) ∧
      ({ rows := desks.map .entry } : Stream).rows = desks.map .entry) ∧
    ∃ rs : List ProjectedRow,
      rowsOf deskExaminer true [.project deskLabel, .project deskSheet]
          { rows := desks.map .entry } {} = .ok (rs.map .projected) ∧
        rowsOf deskExaminer true [.project deskSheet] { rows := desks.map .entry } {} =
          .ok (rs.map .projected) ∧
        rs.map (·.backing?) = desks.map some := by
  have htypes : ∀ c ∈ deskSheet, ∀ d, deskLabel.column? c.path = some d → d.type = c.type := by
    intro c hc d hd
    simp only [deskSheet, List.mem_cons, List.not_mem_nil, or_false] at hc
    rcases hc with rfl | rfl | rfl | rfl <;> cases hd <;> rfl
  exact ⟨⟨htypes, rfl⟩, rowsOf_project_project deskExaminer true {} htypes rfl⟩

/-- A failed lookup is taken over in the words in which it failed. -/
example :
    rowsOf deskExaminer true [.project deskLabel, .project deskSheet]
        { rows := (desks.take 1).map .entry } {} =
      .ok [.projected ⟨desks.head?, [.primitive (.string "oak"),
        .list [.primitive (.boolean true)], .notFound "Discovery of 'weight' failed: unreachable",
        .primitive (.string "oak")]⟩] :=
  rfl

end Pipeline

end ObjectQuery
