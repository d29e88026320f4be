import ObjectQuery.Proofs.Condition.Reached
import ObjectQuery.Proofs.Lookup.Questions
import ObjectQuery.Proofs.Pipeline.Stages
import ObjectQuery.Proofs.Projection.Identifiers

/-!
# Rows one after another

A stage that filters or projects passes over its rows once, and the state that one row
leaves is the one in which the next row is treated. `Stage.passes` is this pass as a
function of the state: the rows that are passed on, and the state at the end. It is what a
run of the stage comes to in **every** state and on all rows
(`Stage.run_treatAll`), also where entries of one number are not the same entry, and where
a failed lookup of one row succeeds for the next. Two inductions over a pass are enough for
what follows: one for what every row leaves alone (`Stage.passes_forall`), and one for rows of
entries that are all asked for the same as their leaders (`Stage.passes_settled`).

What is done with one row is known as well. Projecting an entry shows what the state answers
for it and leaves the questions about its columns behind (`Stage.run_projectRow_entry`);
projecting it again asks for the missing columns only (`Stage.run_projectRow_projected`);
and filtering reads what the condition reaches (`Stage.run_filterRow`).

`Pipeline.rowsOf` puts stages together: the rows that steps make of a stream.
-/

namespace ObjectQuery

namespace Projection

/-- The paths that a projection shows. -/
def paths (p : Projection) : List String :=
  p.map (·.path)

/-- The first column that shows a path. -/
def column? (p : Projection) (path : String) : Option Column :=
  p.find? (·.path == path)

theorem mem_paths {p : Projection} {c : Column} (hc : c ∈ p) : c.path ∈ p.paths :=
  List.mem_map_of_mem hc

theorem column?_eq_bind (p : Projection) (path : String) :
    p.column? path = (p.indexOf? path).bind (p[·]?) := by
  rw [column?, indexOf?, List.find?_eq_bind_findIdx?_getElem?]

theorem mem_of_column? {p : Projection} {path : String} {c : Column}
    (h : p.column? path = some c) : c ∈ p :=
  List.mem_of_find?_eq_some h

theorem path_of_column? {p : Projection} {path : String} {c : Column}
    (h : p.column? path = some c) : c.path = path := by
  simpa using List.find?_some h

theorem column?_eq_none_iff {p : Projection} {path : String} :
    p.column? path = none ↔ path ∉ p.paths := by
  rw [column?, List.find?_eq_none, paths, List.mem_map, not_exists]
  simp

theorem indexOf?_eq_none_iff {p : Projection} {path : String} :
    p.indexOf? path = none ↔ path ∉ p.paths := by
  rw [indexOf?, List.findIdx?_eq_none_iff, paths, List.mem_map, not_exists]
  simp

/-- Projections of the same paths have columns of the same paths. -/
theorem exists_of_paths_eq {p q : Projection} (h : p.paths = q.paths) {i : Nat} {c : Column}
    (hc : q[i]? = some c) : ∃ d, p[i]? = some d ∧ d.path = c.path := by
  have hpath : p.paths[i]? = some c.path := by
    rw [h, paths, List.getElem?_map, hc, Option.map_some]
  rw [paths, List.getElem?_map] at hpath
  exact Option.map_eq_some_iff.1 hpath

theorem length_eq_of_paths_eq {p q : Projection} (h : p.paths = q.paths) :
    p.length = q.length := by
  simpa only [paths, List.length_map] using congrArg List.length h

end Projection

/-- Columns of one type show the same. -/
theorem Column.shows_congr {c d : Column} (h : c.type = d.type) (answer : Except Failure Found) :
    c.shows answer = d.shows answer := by
  cases answer with
  | ok found => rw [shows, shows, h]
  | error failure => rfl

namespace LookupM

/-- **What looking up columns does**: they show what the state answers, and the questions
about them are left behind. -/
theorem run_examine (examiner : Examiner) (e : Entry) (p : Projection) (l : Lookups) :
    (examine examiner e p).run l =
      (p.map fun c => c.shows (l.answer examiner e c.path),
        l.after examiner (p.paths.map (e, ·))) := by
  induction p generalizing l with
  | nil => rfl
  | cons c rest ih =>
    have hcolumn : (examineColumn examiner e c).run l =
        (c.shows (l.answer examiner e c.path), l.after examiner [(e, c.path)]) := by
      rw [examineColumn, run_bind_of_run (Lookups.run_discover examiner e c.path l)]
      cases l.answer examiner e c.path <;> rfl
    have hrest : (l.after examiner [(e, c.path)]).answer examiner e = l.answer examiner e :=
      Lookups.answer_after_entry e [c.path] l
    rw [examine, run_bind_of_run hcolumn, run_bind_of_run (ih _), hrest]
    rfl

end LookupM

namespace Stage

variable {examiner : Examiner} {l : Lookups}

/-! ### Passing over rows -/

/-- The rows that are passed on when rows are treated one after another, and the state that
this leaves. -/
def passes (f : Row → LookupM (Option Row)) : List Row → Lookups → List Row × Lookups
  | [], l => ([], l)
  | row :: rest, l =>
    ((passedOn ((f row).run.run l).1).toList ++ (passes f rest ((f row).run.run l).2).1,
      (passes f rest ((f row).run.run l).2).2)

theorem passes_cons {f : Row → LookupM (Option Row)} {row : Row}
    {answer : Except Failure (Option Row)} {l' : Lookups} (h : (f row).run.run l = (answer, l'))
    (rest : List Row) :
    passes f (row :: rest) l =
      ((passedOn answer).toList ++ (passes f rest l').1, (passes f rest l').2) := by
  rw [passes, h]

/-- A row of which something comes. -/
theorem passes_cons_some {f : Row → LookupM (Option Row)} {row made : Row} {l' : Lookups}
    (h : (f row).run.run l = (.ok (some made), l')) (rest : List Row) :
    passes f (row :: rest) l = (made :: (passes f rest l').1, (passes f rest l').2) :=
  passes_cons h rest

/-- **What one row leaves alone and gives, all of them do**: an invariant of the state, and a
property of the rows that are passed on. -/
theorem passes_forall {f : Row → LookupM (Option Row)} {P : Lookups → Prop} {Q : Row → Prop}
    {rows : List Row}
    (hstep : ∀ row ∈ rows, ∀ l, P l → P ((f row).run.run l).2 ∧
      ∀ made, passedOn ((f row).run.run l).1 = some made → Q made)
    (hl : P l) : P (passes f rows l).2 ∧ ∀ row ∈ (passes f rows l).1, Q row := by
  induction rows generalizing l with
  | nil => exact ⟨hl, fun row hrow => absurd hrow List.not_mem_nil⟩
  | cons first rest ih =>
    obtain ⟨hstate, hfirst⟩ := hstep first List.mem_cons_self l hl
    obtain ⟨hend, hrest⟩ := ih (fun row hrow => hstep row (List.mem_cons_of_mem _ hrow)) hstate
    refine ⟨hend, fun row hrow => ?_⟩
    rcases List.mem_append.1 hrow with hrow | hrow
    · exact hfirst row (Option.mem_toList.1 hrow)
    · exact hrest row hrow

/-- A stage passes on no more rows than it sees. -/
theorem length_passes_le (f : Row → LookupM (Option Row)) (rows : List Row) (l : Lookups) :
    (passes f rows l).1.length ≤ rows.length := by
  induction rows generalizing l with
  | nil => exact Nat.le_refl _
  | cons row rest ih =>
    have hfirst : (passedOn ((f row).run.run l).1).toList.length ≤ 1 := Option.length_toList_le
    have hrest := ih ((f row).run.run l).2
    rw [passes, List.length_append, List.length_cons]
    omega

/-- A row that is treated is counted as seen and as dealt with, and what comes of it is passed
on. -/
theorem treated_eq (out : Stream) (answer : Except Failure (Option Row)) :
    treated out answer =
      { rows := out.rows ++ (passedOn answer).toList
        projection? := out.projection?
        tally :=
          ⟨out.tally.seen + 1, out.tally.processed + 1,
            out.tally.emitted + (passedOn answer).toList.length⟩ } := by
  rw [treated]
  cases passedOn answer with
  | none =>
    rw [Option.toList_none, List.append_nil]
    rfl
  | some made => rfl

theorem run_treat (f : Row → LookupM (Option Row)) (out : Stream) (row : Row) (l : Lookups) :
    (treat f out row).run l = (treated out ((f row).run.run l).1, ((f row).run.run l).2) := by
  have hrow : (f row).run.run l = (((f row).run.run l).1, ((f row).run.run l).2) := rfl
  rw [treat, run_bind_of_run hrow]
  cases ((f row).run.run l).1 with
  | error failure => rfl
  | ok made => cases made <;> rfl

/-- **Treating rows passes over them once**, and counts all of them as seen and as dealt with,
and those that are passed on. -/
theorem run_treatAll (f : Row → LookupM (Option Row)) (rows : List Row) (out : Stream)
    (l : Lookups) :
    (treatAll f out rows).run l =
      ({ rows := out.rows ++ (passes f rows l).1
         projection? := out.projection?
         tally :=
           ⟨out.tally.seen + rows.length, out.tally.processed + rows.length,
             out.tally.emitted + (passes f rows l).1.length⟩ },
        (passes f rows l).2) := by
  induction rows generalizing out l with
  | nil =>
    rw [passes, List.append_nil]
    rfl
  | cons row rest ih =>
    rw [treatAll, run_bind_of_run (run_treat f out row l), ih, treated_eq, passes]
    simp only [List.append_assoc, List.length_append, List.length_cons, Nat.add_assoc,
      Nat.add_comm 1]

theorem rows_run_filter (examiner : Examiner) (noneFirst : Bool) (input : Stream) (c : Condition)
    (declared? : Option Projection) (l : Lookups) :
    ((run examiner noneFirst input (.filter c declared?)).run l).1.rows =
        (passes (filterRow examiner c declared?) input.rows l).1 ∧
      ((run examiner noneFirst input (.filter c declared?)).run l).2 =
        (passes (filterRow examiner c declared?) input.rows l).2 := by
  rw [run, run_treatAll]
  exact ⟨rfl, rfl⟩

theorem rows_run_project (examiner : Examiner) (noneFirst : Bool) (input : Stream)
    (target : Projection) (declared? : Option Projection) (l : Lookups) :
    ((run examiner noneFirst input (.project target declared?)).run l).1.rows =
        (passes (projectRow examiner target declared?) input.rows l).1 ∧
      ((run examiner noneFirst input (.project target declared?)).run l).2 =
        (passes (projectRow examiner target declared?) input.rows l).2 := by
  rw [run, run_treatAll]
  exact ⟨rfl, rfl⟩

/-- The output of a stage declares the projection that the stage does. -/
theorem projection?_run {noneFirst : Bool} (s : Stage) (input : Stream) (l : Lookups) :
    ((s.run examiner noneFirst input).run l).1.projection? = s.declares := by
  cases s with
  | filter c declared? => rw [run, run_treatAll]
  | project target declared? => rw [run, run_treatAll]
  | sort keys declared => exact projection?_sortStream noneFirst keys declared input

/-- **Passing over rows of entries**, if the entries are asked what their leaders are, and all
that is asked is answered: every question is then settled when it is put, so that each row
comes to what it comes to where leaders are answered as at the start. -/
theorem passes_settled {entries : List Entry} {l' : Lookups} (f : Row → LookupM (Option Row))
    (row : Entry → Row) (answer : Entry → Except Failure (Option Row))
    (asked : Entry → List String)
    (hstep : ∀ e ∈ entries, ∀ l', Lookups.Upholds examiner entries l l' →
      (∀ path ∈ asked e, Lookups.Settled entries l' e path) →
      (f (row e)).run.run l' = (answer e, l'.after examiner ((asked e).map (e, ·))))
    (hasked : ∀ e ∈ entries, asked (leader entries e) = asked e)
    (hanswered : ∀ e ∈ entries, ∀ path ∈ asked e, ∃ found, examiner e path = .ok found)
    (h : Lookups.Upholds examiner entries l l') :
    (passes f (entries.map row) l').1 = (entries.filterMap fun e => passedOn (answer e)) ∧
      Lookups.Upholds examiner entries l (passes f (entries.map row) l').2 := by
  -- behind the entries `before`, what they were asked is kept
  suffices hrest : ∀ rest before : List Entry, entries = before ++ rest → ∀ l',
      Lookups.Upholds examiner entries l l' →
      (∀ e ∈ before, ∀ path ∈ asked e, (l'.get? e.id path).isSome = true) →
      (passes f (rest.map row) l').1 = (rest.filterMap fun e => passedOn (answer e)) ∧
        Lookups.Upholds examiner entries l (passes f (rest.map row) l').2 from
    hrest entries [] rfl l' h fun e he => absurd he List.not_mem_nil
  intro rest
  induction rest with
  | nil => exact fun before _ l' h _ => ⟨rfl, h⟩
  | cons e rest ih =>
    intro before hentries l' h hkept
    have he : e ∈ entries := by
      rw [hentries]
      exact List.mem_append_right _ List.mem_cons_self
    have hsettled : ∀ path ∈ asked e, Lookups.Settled entries l' e path := by
      intro path hpath
      rcases leader_append_cons before rest e with hleads | hbefore
      · exact .inl (by rw [hentries, hleads])
      · rw [← hentries] at hbefore
        rw [← hasked e he] at hpath
        refine .inr ?_
        rw [← leader_id entries e]
        exact hkept _ hbefore path hpath
    obtain ⟨hrows, hstate⟩ := ih (before ++ [e]) (by rw [hentries, List.append_assoc]; rfl)
      (l'.after examiner ((asked e).map (e, ·))) (h.after hsettled) <| by
        intro e' he' path hpath
        rcases List.mem_append.1 he' with he' | he'
        · exact Lookups.isSome_get?_after_entry (hkept e' he' path hpath) e _
        · obtain rfl := List.mem_singleton.1 he'
          exact Lookups.isSome_get?_after_entry_of_mem hpath (hanswered e' he path hpath) l'
    rw [List.map_cons, passes_cons (hstep e he l' h hsettled), List.filterMap_cons, hrows]
    refine ⟨?_, hstate⟩
    cases passedOn (answer e) <;> rfl

/-! ### One row -/

/-- Projecting an entry. -/
theorem run_projectRow_entry (target : Projection) (declared? : Option Projection) (e : Entry)
    (l : Lookups) :
    (projectRow examiner target declared? (.entry e)).run.run l =
      (.ok (some (.projected (projectedRow (l.answer examiner) target e))),
        l.after examiner (target.paths.map (e, ·))) := by
  have hexamine : (liftM (LookupM.examine examiner e target) : LookupM (List Found)).run.run l =
      (.ok (target.map fun c => c.shows (l.answer examiner e c.path)),
        l.after examiner (target.paths.map (e, ·))) := by
    change (Except.ok ((LookupM.examine examiner e target).run l).1,
      ((LookupM.examine examiner e target).run l).2) = _
    rw [LookupM.run_examine]
  exact run_bind_of_ok hexamine

theorem run_examineMissing (columns : Projection) (e : Entry) (l : Lookups) :
    (examineMissing examiner columns (some e)).run.run l =
      (.ok (columns.map fun c => c.shows (l.answer examiner e c.path)),
        l.after examiner (columns.paths.map (e, ·))) := by
  cases columns with
  | nil => rfl
  | cons c rest =>
    change (Except.ok ((LookupM.examine examiner e (c :: rest)).run l).1,
      ((LookupM.examine examiner e (c :: rest)).run l).2) = _
    rw [LookupM.run_examine]

/-- **What is taken over and what is looked up, in the order of the target.** -/
theorem fill_eq_map (columns : List Found) (declared : Projection) (fresh : Column → Found)
    (target : Projection) :
    fill columns (sources target declared) ((missing target declared).map fresh) =
      target.map fun c =>
        match declared.indexOf? c.path with
        | some i => columns[i]?.getD .noValue
        | none => fresh c := by
  induction target with
  | nil => rfl
  | cons c rest ih =>
    have hsources : sources (c :: rest) declared =
        declared.indexOf? c.path :: sources rest declared := rfl
    rw [hsources, List.map_cons, ← ih, missing, List.filter_cons, ← missing]
    cases hindex : declared.indexOf? c.path with
    | none => simp only [Option.isNone_none, if_true, List.map_cons, fill]
    | some i => simp only [Option.isNone_some, Bool.false_eq_true, if_false, fill]

/-- Projecting a row again, with an entry behind it. -/
theorem run_projectRow_projected (target declared : Projection) (e : Entry) (columns : List Found)
    (l : Lookups) :
    (projectRow examiner target (some declared) (.projected ⟨some e, columns⟩)).run.run l =
      (.ok (some (.projected ⟨some e, fill columns (sources target declared)
        ((missing target declared).map fun c => c.shows (l.answer examiner e c.path))⟩)),
        l.after examiner ((missing target declared).paths.map (e, ·))) :=
  run_bind_of_ok (run_examineMissing (missing target declared) e l)

/-- Filtering a row. -/
theorem run_filterRow {declared? : Option Projection} {row : Row} {s : Subject}
    (hs : subject declared? row = .ok s) (c : Condition) (l : Lookups) :
    (filterRow examiner c declared? row).run.run l =
      (kept (Condition.verdict (s.view examiner l) c) row,
        s.after examiner l (Condition.reached (s.view examiner l) c)) := by
  have hsubject : (ExceptT.mk (pure (subject declared? row)) : LookupM Subject).run.run l =
      (.ok s, l) := by
    rw [hs]
    rfl
  have hholds : (Condition.holds examiner s c).run.run l = _ := Condition.run_holds c s l
  rw [filterRow, run_bind_of_ok hsubject]
  cases hverdict : Condition.verdict (s.view examiner l) c with
  | error failure => exact run_bind_of_error (hholds.trans (by rw [hverdict]))
  | ok b => exact run_bind_of_ok (hholds.trans (by rw [hverdict]))

end Stage

/-- A source gives rows of its entries only. -/
theorem Stream.exists_of_mem_scan {source : List (Except Failure Entry)} {row : Row}
    (h : row ∈ (scan source).rows) : ∃ e, .ok e ∈ source ∧ row = .entry e := by
  obtain ⟨entries, rest, rfl, hrest⟩ := exists_source_eq source
  rw [scan_append entries hrest] at h
  obtain ⟨e, he, rfl⟩ := List.mem_map.1 h
  exact ⟨e, List.mem_append_left _ (List.mem_map_of_mem he), rfl⟩

/-- A source declares no projection. -/
theorem Stream.projection?_scan (source : List (Except Failure Entry)) :
    (scan source).projection? = none := by
  obtain ⟨entries, rest, rfl, hrest⟩ := exists_source_eq source
  rw [scan_append entries hrest]

namespace Pipeline

variable {examiner : Examiner} {noneFirst : Bool}

/-! ### Stages in a row -/

/-- The rows that steps make of a stream, or why they are refused. -/
def rowsOf (examiner : Examiner) (noneFirst : Bool) (steps : List Step) (input : Stream)
    (l : Lookups) : Except Failure (List Row) := do
  let ss ← stages input.projection? steps
  return (lastOutput input ((outputs examiner noneFirst input ss).run l).1).rows

/-- What is collected from a source are the rows that the steps make of its entries. -/
theorem fst_collect (examiner : Examiner) (noneFirst : Bool) (steps : List Step)
    (source : List (Except Failure Entry)) (l : Lookups) :
    ((collect examiner noneFirst steps source).run.run l).1 =
      rowsOf examiner noneFirst steps (Stream.scan source) l := by
  rw [rowsOf, Stream.projection?_scan, collect]
  cases stages none steps <;> rfl

/-- **Steps make of a stream what those behind the first make of the stream of its stage.** -/
theorem rowsOf_cons {step : Step} {input : Stream} {s : Stage}
    (hs : stage input.projection? step = .ok s) (rest : List Step) (l : Lookups) :
    rowsOf examiner noneFirst (step :: rest) input l =
      rowsOf examiner noneFirst rest ((s.run examiner noneFirst input).run l).1
        ((s.run examiner noneFirst input).run l).2 := by
  rw [rowsOf, rowsOf, stages_cons_eq_map hs, s.projection?_run]
  cases stages s.declares rest with
  | error failure => rfl
  | ok ss =>
    change Except.ok (lastOutput input (_ :: _)).rows = .ok (lastOutput _ _).rows
    rw [lastOutput, List.getLast?_cons]
    rfl

/-- One step. -/
theorem rowsOf_singleton {step : Step} {input : Stream} {s : Stage}
    (hs : stage input.projection? step = .ok s) (l : Lookups) :
    rowsOf examiner noneFirst [step] input l =
      .ok ((s.run examiner noneFirst input).run l).1.rows := by
  rw [rowsOf_cons hs]
  rfl

/-- Two steps, the second on what the first one leaves. -/
theorem rowsOf_pair {step step' : Step} {input : Stream} {s s' : Stage}
    (hs : stage input.projection? step = .ok s) (hs' : stage s.declares step' = .ok s')
    (l : Lookups) :
    rowsOf examiner noneFirst [step, step'] input l =
      .ok ((s'.run examiner noneFirst ((s.run examiner noneFirst input).run l).1).run
        ((s.run examiner noneFirst input).run l).2).1.rows := by
  rw [← s.projection?_run input l] at hs'
  rw [rowsOf_cons hs, rowsOf_singleton hs']

end Pipeline

end ObjectQuery
