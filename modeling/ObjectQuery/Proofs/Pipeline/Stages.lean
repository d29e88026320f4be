import ObjectQuery.Pipeline.Basic
import ObjectQuery.Proofs.Condition.Reading
import ObjectQuery.Proofs.Matching.Rows
import ObjectQuery.Proofs.Sorting.Complete

/-!
# Stages over a view

A stage that filters or projects treats its rows one by one, and over a view what it does
with a row does not depend on the rows before it. Its output is then a single pass over
its input (`Stage.gives_treatAll`), in which a row that fails is missing just as one that
is dropped (`Stage.passedOn`).

Sorting looks nothing up. Of projected rows it passes on all, and only their order is
changed (`Stage.rows_sortStream`), unless it breaks off and passes on none.
-/

namespace ObjectQuery

/-! ### Columns -/

/-- What a column shows for an answer: a failure and a value of another type are shown as
*not found*. -/
def Column.shows (c : Column) : Except Failure Found → Found
  | .ok found => if c.type.accepts found then found else .notFound "type mismatch"
  | .error failure => .notFound failure.message

/-- A column of any type shows what it finds. -/
theorem Column.shows_of_any {c : Column} (h : c.type = .any) (answer : Except Failure Found) :
    c.shows answer = shown answer := by
  cases answer with
  | ok found => simp [shows, shown, h, ColumnType.accepts]
  | error failure => rfl

/-- The entry behind a row, if there is one. -/
def Row.backing? : Row → Option Entry
  | .entry e => some e
  | .projected r => r.backing?

/-- The projected row of an entry that a view answers for. -/
def projectedRow (view : Examiner) (p : Projection) (e : Entry) : ProjectedRow :=
  ⟨some e, p.map fun c => c.shows (view e c.path)⟩

namespace Stage

/-! ### Rows one by one -/

/-- What a stage passes on for a row, given what treating it came to. -/
def passedOn : Except Failure (Option Row) → Option Row
  | .ok made => made
  | .error _ => none

/-- One row after the treatment that came to the answer given. -/
def treated (out : Stream) (answer : Except Failure (Option Row)) : Stream :=
  match passedOn answer with
  | some made => out.see.process.emit made
  | none => out.see.process

theorem rows_foldl_treated (answer : Row → Except Failure (Option Row)) (rows : List Row)
    (out : Stream) :
    (rows.foldl (fun out row => treated out (answer row)) out).rows =
      out.rows ++ rows.filterMap fun row => passedOn (answer row) := by
  induction rows generalizing out with
  | nil => simp
  | cons row rest ih =>
    rw [List.foldl_cons, ih, treated]
    cases h : passedOn (answer row) with
    | none => simp [Stream.see, Stream.process, h]
    | some made => simp [Stream.see, Stream.process, Stream.emit, h]

section Evaluation

variable {P : Lookups → Prop} {examiner view : Examiner} {entries : List Entry}

/-- **A stage gives a single pass over its input**, if treating a row gives an answer. -/
theorem gives_treatAll {f : Row → LookupM (Option Row)} {answer : Row → Except Failure (Option Row)}
    {rows : List Row} (h : ∀ row ∈ rows, Gives P (f row).run (answer row)) (out : Stream) :
    Gives P (treatAll f out rows) (rows.foldl (fun out row => treated out (answer row)) out) := by
  induction rows generalizing out with
  | nil => exact Gives.pure _
  | cons row rest ih =>
    have htreat : Gives P (treat f out row) (treated out (answer row)) := by
      rw [treat, treated]
      refine (h row List.mem_cons_self).bind ?_
      cases answer row with
      | error failure => exact Gives.pure _
      | ok made => cases made <;> exact Gives.pure _
    exact htreat.bind (ih (fun row' hrow' => h row' (List.mem_cons_of_mem _ hrow')) _)

/-! ### Filtering -/

/-- What filtering comes to for a row, given what its condition comes to. -/
def kept (verdict : Except Failure Bool) (row : Row) : Except Failure (Option Row) :=
  verdict.map fun holds => if holds then some row else none

/-- Filtering passes the row itself on, or nothing. -/
theorem eq_of_passedOn_kept {verdict : Except Failure Bool} {row made : Row}
    (h : passedOn (kept verdict row) = some made) : made = row := by
  cases verdict with
  | error failure => cases h
  | ok holds =>
    cases holds with
    | false => cases h
    | true => exact (Option.some.inj h).symm

/-- What filtering comes to for a row. -/
def filterAnswer (view : Examiner) (c : Condition) (declared? : Option Projection) (row : Row) :
    Except Failure (Option Row) := do
  let s ← subject declared? row
  let holds ← Condition.verdict (s.seen view) c
  return if holds then some row else none

/-- What a filter evaluates its condition against has the entry of the row behind it. -/
theorem backing?_of_subject {declared? : Option Projection} {row : Row} {s : Subject}
    (h : subject declared? row = .ok s) : s.backing? = row.backing? := by
  cases row with
  | entry e =>
    cases h
    rfl
  | projected r =>
    cases declared? with
    | some projection =>
      cases h
      rfl
    | none =>
      simp only [subject] at h
      cases hbacking : r.backing? with
      | some e =>
        rw [hbacking] at h
        cases h
        exact hbacking.symm
      | none =>
        -- without a projection and without an entry there is no subject
        rw [hbacking] at h
        cases h

theorem gives_filterRow (h : AnsweredBy P examiner view entries) (c : Condition)
    (declared? : Option Projection) {row : Row} (hrow : ∀ e, row.backing? = some e → e ∈ entries) :
    Gives P (filterRow examiner c declared? row).run (filterAnswer view c declared? row) := by
  rw [filterRow, filterAnswer]
  refine Gives.bindExcept (r := subject declared? row) (Gives.pure _) fun s hs => ?_
  have hread := Subject.gives_read_seen h fun e he => hrow e (backing?_of_subject hs ▸ he)
  exact (Condition.gives_holds c s (s.seen view) hread).bindExcept
    (g := fun holds => .ok (if holds then some row else none)) fun _ _ => Gives.pure _

/-! ### Projecting -/

/-- What looking up the missing columns of a row comes to. -/
def missingAnswer (view : Examiner) (columns : Projection) (backing? : Option Entry) :
    Except Failure (List Found) :=
  if columns.isEmpty then .ok []
  else match backing? with
    | some e => .ok (columns.map fun c => c.shows (view e c.path))
    | none => .error rowWithoutEntry

/-- What projecting comes to for a row. -/
def projectAnswer (view : Examiner) (target : Projection) (declared? : Option Projection)
    (row : Row) : Except Failure (Option Row) :=
  match row, declared? with
  | .entry e, _ => .ok (some (.projected (projectedRow view target e)))
  | .projected r, some declared => do
    let fresh ← missingAnswer view (missing target declared) r.backing?
    return some (.projected ⟨r.backing?, fill r.columns (sources target declared) fresh⟩)
  | .projected _, none => .error rowWithoutProjection

theorem gives_examineColumn (h : AnsweredBy P examiner view entries) {e : Entry}
    (he : e ∈ entries) (c : Column) :
    Gives P (LookupM.examineColumn examiner e c) (c.shows (view e c.path)) := by
  rw [LookupM.examineColumn]
  refine (h e he c.path).bind ?_
  cases view e c.path with
  | ok found => exact Gives.pure _
  | error failure => exact Gives.pure _

theorem gives_examine (h : AnsweredBy P examiner view entries) {e : Entry} (he : e ∈ entries)
    (p : Projection) :
    Gives P (LookupM.examine examiner e p) (p.map fun c => c.shows (view e c.path)) := by
  induction p with
  | nil => exact Gives.pure _
  | cons c rest ih =>
    rw [LookupM.examine, List.map_cons]
    exact (gives_examineColumn h he c).bind (ih.bind (Gives.pure _))

theorem gives_examineMissing (h : AnsweredBy P examiner view entries) (columns : Projection)
    {backing? : Option Entry} (hbacking : ∀ e, backing? = some e → e ∈ entries) :
    Gives P (examineMissing examiner columns backing?).run
      (missingAnswer view columns backing?) := by
  by_cases hempty : columns.isEmpty = true
  · simp only [examineMissing, missingAnswer, hempty, if_true]
    exact Gives.pure _
  · simp only [examineMissing, missingAnswer, hempty]
    cases backing? with
    | none => exact Gives.pure _
    | some e => exact (gives_examine h (hbacking e rfl) columns).lift

theorem gives_projectRow (h : AnsweredBy P examiner view entries) (target : Projection)
    (declared? : Option Projection) {row : Row} (hrow : ∀ e, row.backing? = some e → e ∈ entries) :
    Gives P (projectRow examiner target declared? row).run
      (projectAnswer view target declared? row) := by
  cases row with
  | entry e =>
    exact (gives_examine h (hrow e rfl) target).lift.bindExcept
      (g := fun columns => .ok (some (Row.projected ⟨some e, columns⟩))) fun _ _ => Gives.pure _
  | projected r =>
    cases declared? with
    | none => exact Gives.pure _
    | some declared =>
      exact (gives_examineMissing h (missing target declared) hrow).bindExcept
        fun _ _ => Gives.pure _

end Evaluation

/-! ### Sorting projected rows -/

/-- Rows are all projected, or there is a first one that is not. -/
theorem projected_or_entry (rows : List Row) :
    (∃ rs : List ProjectedRow, rows = rs.map .projected) ∨
      ∃ (rs : List ProjectedRow) (e : Entry) (rest : List Row),
        rows = rs.map .projected ++ .entry e :: rest := by
  induction rows with
  | nil => exact .inl ⟨[], rfl⟩
  | cons row rest ih =>
    cases row with
    | entry e => exact .inr ⟨[], e, rest, rfl⟩
    | projected r =>
      rcases ih with ⟨rs, rfl⟩ | ⟨rs, e, rest', rfl⟩
      · exact .inl ⟨r :: rs, rfl⟩
      · exact .inr ⟨r :: rs, e, rest', rfl⟩

/-- Projected rows are seen and taken in. -/
theorem takeIn_projected (rs taken : List ProjectedRow) (out : Stream) (rest : List Row) :
    takeIn out taken (rs.map .projected ++ rest) =
      takeIn { out with tally.seen := out.tally.seen + rs.length } (taken ++ rs) rest := by
  induction rs generalizing taken out with
  | nil =>
    rw [List.append_nil]
    rfl
  | cons r rs ih =>
    have hseen : out.see.tally.seen + rs.length = out.tally.seen + (rs.length + 1) := by
      rw [Stream.see, Nat.add_assoc, Nat.add_comm 1]
    rw [List.map_cons, List.cons_append, takeIn, ih, hseen, List.append_assoc,
      List.singleton_append]
    rfl

theorem foldl_emit (rs : List ProjectedRow) (out : Stream) :
    rs.foldl (fun out r => out.process.emit (.projected r)) out =
      { rows := out.rows ++ rs.map .projected
        projection? := out.projection?
        tally :=
          ⟨out.tally.seen, out.tally.processed + rs.length, out.tally.emitted + rs.length⟩ } := by
  induction rs generalizing out with
  | nil =>
    rw [List.map_nil, List.append_nil]
    rfl
  | cons r rest ih =>
    rw [List.foldl_cons, ih]
    simp only [Stream.process, Stream.emit, List.map_cons, List.append_assoc,
      List.singleton_append, List.length_cons, Nat.add_assoc, Nat.add_comm 1]

/-- The rows that sorting passes on: all of them, in order, or none if it breaks off. -/
def sortedRows (noneFirst : Bool) (keys : List (Nat × Direction)) (rows : List ProjectedRow) :
    List ProjectedRow :=
  (sortRows noneFirst keys rows).getD []

theorem sortRows_perm {noneFirst : Bool} {keys : List (Nat × Direction)}
    {rows sorted : List ProjectedRow} (h : sortRows noneFirst keys rows = some sorted) :
    sorted.Perm rows :=
  Sorting.sort_perm h

theorem mem_of_mem_sortedRows {noneFirst : Bool} {keys : List (Nat × Direction)}
    {rows : List ProjectedRow} {r : ProjectedRow} (h : r ∈ sortedRows noneFirst keys rows) :
    r ∈ rows := by
  rw [sortedRows] at h
  cases hsorted : sortRows noneFirst keys rows with
  | none =>
    rw [hsorted] at h
    cases h
  | some sorted =>
    rw [hsorted] at h
    exact (sortRows_perm hsorted).mem_iff.1 h

/-- **Sorting projected rows passes on all of them, in order**, or none. -/
theorem sortStream_of_projected (noneFirst : Bool) (keys : List (Nat × Direction))
    (declared : Projection) {input : Stream} {rs : List ProjectedRow}
    (h : input.rows = rs.map .projected) :
    sortStream noneFirst keys declared input =
      { rows := (sortedRows noneFirst keys rs).map .projected
        projection? := some declared
        tally :=
          ⟨rs.length, (sortedRows noneFirst keys rs).length,
            (sortedRows noneFirst keys rs).length⟩ } := by
  have htake : takeIn { projection? := some declared } [] input.rows =
      ({ projection? := some declared, tally.seen := 0 + rs.length }, some rs) := by
    rw [h, ← List.append_nil (rs.map Row.projected), takeIn_projected]
    rfl
  simp only [sortStream, htake, Option.bind_some, sortedRows]
  cases sortRows noneFirst keys rs with
  | none => simp only [Option.getD_none, List.map_nil, List.length_nil, Nat.zero_add]
  | some sorted => simp only [foldl_emit, Option.getD_some, List.nil_append, Nat.zero_add]

/-- **Sorting stops at the first row that is not projected**, and passes on nothing. -/
theorem sortStream_of_entry (noneFirst : Bool) (keys : List (Nat × Direction))
    (declared : Projection) {input : Stream} {rs : List ProjectedRow} {e : Entry}
    {rest : List Row} (h : input.rows = rs.map .projected ++ .entry e :: rest) :
    sortStream noneFirst keys declared input =
      { projection? := some declared, tally.seen := rs.length + 1 } := by
  simp only [sortStream, h, takeIn_projected, takeIn, Option.bind_none, Stream.see, Nat.zero_add]

theorem projection?_sortStream (noneFirst : Bool) (keys : List (Nat × Direction))
    (declared : Projection) (input : Stream) :
    (sortStream noneFirst keys declared input).projection? = some declared := by
  rcases projected_or_entry input.rows with ⟨rs, hrows⟩ | ⟨rs, e, rest, hrows⟩
  · rw [sortStream_of_projected noneFirst keys declared hrows]
  · rw [sortStream_of_entry noneFirst keys declared hrows]

theorem rows_sortStream (noneFirst : Bool) (keys : List (Nat × Direction)) (declared : Projection)
    {input : Stream} {rs : List ProjectedRow} (h : input.rows = rs.map .projected) :
    (sortStream noneFirst keys declared input).rows =
      (sortedRows noneFirst keys rs).map .projected := by
  rw [sortStream_of_projected noneFirst keys declared h]

/-! ### Running a stage on entries -/

theorem filterMap_kept (view : Examiner) (c : Condition) (row : Entry → Row)
    (entries : List Entry) :
    (entries.filterMap fun e => passedOn (kept (Condition.verdict (view e) c) (row e))) =
      (Matching.matching view c entries).map row := by
  refine Matching.filterMap_eq_map_matching (fun e h => ?_) (fun e h => ?_) entries
  · rw [h]
    rfl
  · cases hverdict : Condition.verdict (view e) c with
    | error failure => rfl
    | ok b =>
      cases b with
      | false => rfl
      | true => exact absurd hverdict h

theorem filterMap_filterAnswer (view : Examiner) (c : Condition) (declared? : Option Projection)
    (entries : List Entry) :
    (entries.map Row.entry).filterMap (fun row => passedOn (filterAnswer view c declared? row)) =
      (Matching.matching view c entries).map .entry := by
  have hanswer : (fun row => passedOn (filterAnswer view c declared? row)) ∘ Row.entry =
      fun e => passedOn (kept (Condition.verdict (view e) c) (.entry e)) := rfl
  rw [List.filterMap_map, hanswer, filterMap_kept]

section Evaluation

variable {P : Lookups → Prop} {examiner view : Examiner} {entries : List Entry} {input : Stream}

theorem backing?_of_mem_entries {row : Row} (hrow : row ∈ entries.map Row.entry) :
    ∀ e, row.backing? = some e → e ∈ entries := by
  obtain ⟨e, he, rfl⟩ := List.mem_map.1 hrow
  rintro e' ⟨⟩
  exact he

/-- **Filtering entries passes on those that fulfil the condition.** -/
theorem gives_run_filter (h : AnsweredBy P examiner view entries)
    (hinput : input.rows = entries.map .entry) (noneFirst : Bool) (c : Condition)
    (declared? : Option Projection) :
    ∃ out, Gives P (run examiner noneFirst input (.filter c declared?)) out ∧
      out.rows = (Matching.matching view c entries).map .entry := by
  have hrun := gives_treatAll
    (fun row hrow => gives_filterRow h c declared? (backing?_of_mem_entries hrow))
    { projection? := declared? }
  rw [← hinput] at hrun
  refine ⟨_, hrun, ?_⟩
  rw [rows_foldl_treated, hinput, filterMap_filterAnswer]
  rfl

/-- **Projecting entries passes on a row for each.** -/
theorem gives_run_project (h : AnsweredBy P examiner view entries)
    (hinput : input.rows = entries.map .entry) (noneFirst : Bool) (target : Projection)
    (declared? : Option Projection) :
    ∃ out, Gives P (run examiner noneFirst input (.project target declared?)) out ∧
      out.rows = (entries.map (projectedRow view target)).map .projected := by
  have hrun := gives_treatAll
    (fun row hrow => gives_projectRow h target declared? (backing?_of_mem_entries hrow))
    { projection? := some target }
  rw [← hinput] at hrun
  refine ⟨_, hrun, ?_⟩
  have hpass : (fun row => passedOn (projectAnswer view target declared? row)) ∘ Row.entry =
      fun e => some (.projected (projectedRow view target e)) := rfl
  rw [rows_foldl_treated, hinput, List.filterMap_map, hpass, List.filterMap_eq_map', List.map_map]
  rfl

end Evaluation

end Stage

/-- The entries that a source gives are seen, dealt with and passed on. -/
theorem Stream.scan_go_append (entries : List Entry) (s : Stream)
    (rest : List (Except Failure Entry)) :
    scan.go s (entries.map .ok ++ rest) =
      scan.go
        { rows := s.rows ++ entries.map .entry
          projection? := s.projection?
          tally :=
            ⟨s.tally.seen + entries.length, s.tally.processed + entries.length,
              s.tally.emitted + entries.length⟩ } rest := by
  induction entries generalizing s with
  | nil =>
    rw [List.map_nil, List.map_nil, List.append_nil, List.nil_append]
    rfl
  | cons e entries ih =>
    rw [List.map_cons, List.cons_append, scan.go, ih]
    simp only [see, process, emit, List.map_cons, List.append_assoc, List.singleton_append,
      List.length_cons, Nat.add_assoc, Nat.add_comm 1]

/-- **A source is read up to the first entry that it fails to give.** -/
theorem Stream.scan_append (entries : List Entry) {rest : List (Except Failure Entry)}
    (h : rest = [] ∨ ∃ failure more, rest = .error failure :: more) :
    scan (entries.map .ok ++ rest) =
      { rows := entries.map .entry
        tally := ⟨entries.length, entries.length, entries.length⟩ } := by
  rw [scan, scan_go_append]
  simp only [List.nil_append, Nat.zero_add]
  rcases h with rfl | ⟨failure, more, rfl⟩ <;> rfl

/-- A source gives some entries, and then it is over or fails. -/
theorem Stream.exists_source_eq (source : List (Except Failure Entry)) :
    ∃ (entries : List Entry) (rest : List (Except Failure Entry)),
      source = entries.map .ok ++ rest ∧
        (rest = [] ∨ ∃ failure more, rest = .error failure :: more) := by
  induction source with
  | nil => exact ⟨[], [], rfl, .inl rfl⟩
  | cons first more ih =>
    cases first with
    | error failure => exact ⟨[], _, rfl, .inr ⟨failure, more, rfl⟩⟩
    | ok e =>
      obtain ⟨entries, rest, rfl, hrest⟩ := ih
      exact ⟨e :: entries, rest, rfl, hrest⟩

/-- The rows of a source that gives all of its entries. -/
theorem Stream.rows_scan (entries : List Entry) :
    (Stream.scan (entries.map .ok)).rows = entries.map .entry := by
  rw [← List.append_nil (entries.map Except.ok), scan_append entries (.inl rfl)]

/-! ### Stages in a row -/

namespace Pipeline

/-- The stages of steps are that of the first one and those of the others, worked out from what
the first declares. -/
theorem stages_cons_eq_map {declared? : Option Projection} {step : Step} {s : Stage}
    (hs : stage declared? step = .ok s) (rest : List Step) :
    stages declared? (step :: rest) = (stages s.declares rest).map (s :: ·) := by
  rw [stages, hs]
  change (do return s :: (← stages s.declares rest)) = _
  cases stages s.declares rest <;> rfl

theorem stages_cons {declared? : Option Projection} {step : Step} {rest : List Step} {s : Stage}
    {ss : List Stage} (hs : stage declared? step = .ok s) (hss : stages s.declares rest = .ok ss) :
    stages declared? (step :: rest) = .ok (s :: ss) := by
  rw [stages_cons_eq_map hs, hss]
  rfl

theorem gives_outputs_cons {P : Lookups → Prop} {examiner : Examiner} {noneFirst : Bool}
    {input out : Stream} {s : Stage} {rest : List Stage} {outs : List Stream}
    (hout : Gives P (s.run examiner noneFirst input) out)
    (houts : Gives P (outputs examiner noneFirst out rest) outs) :
    Gives P (outputs examiner noneFirst input (s :: rest)) (out :: outs) :=
  hout.bind (houts.bind (Gives.pure _))

/-- A pipeline that is not refused gives the rows of its last stream. -/
theorem gives_collect {P : Lookups → Prop} {examiner : Examiner} {noneFirst : Bool}
    {steps : List Step} {source : List (Except Failure Entry)} {ss : List Stage}
    {outs : List Stream} (hss : stages none steps = .ok ss)
    (houts : Gives P (outputs examiner noneFirst (Stream.scan source) ss) outs) :
    Gives P (collect examiner noneFirst steps source).run
      (.ok (lastOutput (Stream.scan source) outs).rows) := by
  rw [collect, hss]
  exact houts.lift.bindExcept
    (g := fun outs => .ok (lastOutput (Stream.scan source) outs).rows) fun _ _ => Gives.pure _

end Pipeline

end ObjectQuery
