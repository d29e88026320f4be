import Mathlib.Data.List.Forall2
import Mathlib.Data.Set.List
import ObjectQuery.Proofs.Pipeline.Passes

/-!
# What stands in a column

A column is looked up once, under the type that it has then, and a value of another type is
replaced. From there on the value goes through the pipeline unchanged: filters and sorting
pass whole rows on, and a projection that finds the path in the rows of its input takes the
value over, **whatever type it gives the column**. So what is known of a value is not the type
of the column in which it stands, but that of the column it was looked up for, its **origin**
(`Stage.origins`).

Every row that a stage passes on has the columns that the stage declares, each with a value
that its origin shows of an answer for the entry behind the row
(`Pipeline.outputs_columns`). The value is of the declared type if the column takes in all
that its origin may hold (`ColumnType.fits`). Otherwise it need not be: a name that was looked
up for a column of any type stands in a column of numbers after it is projected again
(`Pipeline.rowsOf_retyped`).
-/

namespace ObjectQuery

/-! ### Types -/

namespace ColumnType

/-- Whether a column of a type may take over every column of another type. -/
def fits (t u : ColumnType) : Bool :=
  t == u || u == .any || t == .temporal

/-- **One type fits another if what it accepts is accepted by the other.** -/
theorem fits_iff {t u : ColumnType} :
    t.fits u = true ↔ ∀ found, t.accepts found = true → u.accepts found = true := by
  constructor
  · intro h found hfound
    rw [fits, Bool.or_eq_true, Bool.or_eq_true, beq_iff_eq, beq_iff_eq, beq_iff_eq] at h
    rcases h with (rfl | rfl) | rfl
    · exact hfound
    · exact Bool.or_eq_true_iff.2 (.inr rfl)
    · -- only the none family stands in a temporal column
      have hnone : found.isNone = true := by simpa [accepts] using hfound
      exact Bool.or_eq_true_iff.2 (.inl hnone)
  · intro h
    -- a value of every kind tells the types apart
    cases t with
    | string =>
      have hstring := h (.primitive (.string "")) rfl
      cases u <;> first | rfl | exact absurd hstring Bool.false_ne_true
    | number =>
      have hnumber := h (.primitive (.number (.integer (.ofNat 0)))) rfl
      cases u <;> first | rfl | exact absurd hnumber Bool.false_ne_true
    | boolean =>
      have hboolean := h (.primitive (.boolean true)) rfl
      cases u <;> first | rfl | exact absurd hboolean Bool.false_ne_true
    | list =>
      have hlist := h (.list []) rfl
      cases u <;> first | rfl | exact absurd hlist Bool.false_ne_true
    | object =>
      have hobject := h (.complex []) rfl
      cases u <;> first | rfl | exact absurd hobject Bool.false_ne_true
    | any =>
      have hlist := h (.list []) rfl
      have hobject := h (.complex []) rfl
      cases u <;> first
        | rfl
        | exact absurd hlist Bool.false_ne_true
        | exact absurd hobject Bool.false_ne_true
    | temporal => exact Bool.or_eq_true_iff.2 (.inr rfl)

end ColumnType

/-- What a column shows is of its type. -/
theorem Column.accepts_shows (c : Column) (answer : Except Failure Found) :
    c.type.accepts (c.shows answer) = true := by
  cases answer with
  | ok found =>
    rw [shows]
    split
    · next haccepts => exact haccepts
    · rfl
  | error failure => rfl

/-- What a column may show: a value of its own type that is an answer for its path, or *not
found* in place of any other answer. -/
def Column.MayShow (answers : String → Except Failure Found → Prop) (c : Column) (v : Found) :
    Prop :=
  ∃ answer, answers c.path answer ∧ v = c.shows answer

theorem Column.MayShow.accepts {answers : String → Except Failure Found → Prop} {c : Column}
    {v : Found} (h : c.MayShow answers v) : c.type.accepts v = true := by
  obtain ⟨answer, -, rfl⟩ := h
  exact c.accepts_shows answer

/-! ### Origins -/

namespace Stage

/-- The column that a column was looked up for, if it is taken over from rows with the origins
given where they show its path: the column itself if they do not. -/
def origin (declared before : Projection) (c : Column) : Column :=
  ((declared.indexOf? c.path).bind (before[·]?)).getD c

/-- The columns that the values in the output of a stage were looked up for, given those of its
input. -/
def origins (before : Projection) : Stage → Projection
  | .filter _ _ => before
  | .project target none => target
  | .project target (some declared) => target.map (origin declared before)
  | .sort _ _ => before

/-- The projection of its input that a stage was worked out from. -/
def follows : Stage → Option Projection
  | .filter _ declared? => declared?
  | .project _ declared? => declared?
  | .sort _ declared => some declared

/-- A column is its own origin, or it is taken over and has an origin of its path. -/
theorem origin_cases {declared before : Projection} (h : before.paths = declared.paths)
    (c : Column) :
    declared.indexOf? c.path = none ∧ origin declared before c = c ∨
      ∃ i d, declared.indexOf? c.path = some i ∧ before[i]? = some d ∧ d.path = c.path ∧
        origin declared before c = d := by
  rw [origin]
  cases hindex : declared.indexOf? c.path with
  | none => exact .inl ⟨rfl, rfl⟩
  | some i =>
    obtain ⟨c', hc', hpath'⟩ := (Projection.indexOf?_eq_some_iff.1 hindex).1
    obtain ⟨d, hd, hpath⟩ := Projection.exists_of_paths_eq h hc'
    refine .inr ⟨i, d, rfl, hd, hpath.trans hpath', ?_⟩
    rw [Option.bind_some, hd, Option.getD_some]

/-- The origins of the columns that a stage declares show the same paths. -/
theorem paths_origins {s : Stage} {before declared : Projection}
    (h : ∀ followed, s.follows = some followed → before.paths = followed.paths)
    (hdeclares : s.declares = some declared) : (s.origins before).paths = declared.paths := by
  cases s with
  | filter c declared? => exact h declared hdeclares
  | sort keys followed => exact h declared hdeclares
  | project target declared? =>
    cases hdeclares
    cases declared? with
    | none => rfl
    | some followed =>
      rw [origins, Projection.paths, List.map_map]
      refine List.map_congr_left fun c _ => ?_
      rcases origin_cases (h followed rfl) c with ⟨-, horigin⟩ | ⟨i, d, -, -, hpath, horigin⟩
      · exact congrArg Column.path horigin
      · exact (congrArg Column.path horigin).trans hpath

end Stage

/-! ### Rows of a stream -/

/-- A row of a stream: an entry where no projection is declared, and otherwise a row in which
every column shows what its origin shows of an answer for the entry behind it. -/
inductive Row.Carries (answers : Entry → String → Except Failure Found → Prop)
    (asked : Entry → Prop) (before : Projection) : Option Projection → Row → Prop
  | entry {e : Entry} (he : asked e) : Carries answers asked before none (.entry e)
  | projected {declared : Projection} {e : Entry} {columns : List Found} (he : asked e)
      (hcolumns : List.Forall₂ (Column.MayShow (answers e)) before columns) :
      Carries answers asked before (some declared) (.projected ⟨some e, columns⟩)

/-- What stands at a position of one list is related to what stands there in the other. -/
theorem exists_getElem?_of_forall₂ {α β : Type} {R : α → β → Prop} {xs : List α} {ys : List β}
    (h : List.Forall₂ R xs ys) {i : Nat} {x : α} (hx : xs[i]? = some x) :
    ∃ y, ys[i]? = some y ∧ R x y := by
  obtain ⟨hi, rfl⟩ := List.getElem?_eq_some_iff.1 hx
  have hi' : i < ys.length := h.length_eq ▸ hi
  exact ⟨ys[i], List.getElem?_eq_getElem hi', h.get hi hi'⟩

/-- Reading a subject asks about the entry behind it only. -/
theorem Subject.within_after {examiner : Examiner} {asked : Entry → Prop} {l l' : Lookups}
    {s : Subject} (hs : ∀ e, s.backing? = some e → asked e) (h : l.Within examiner asked l')
    (paths : List String) : l.Within examiner asked (s.after examiner l' paths) := by
  induction paths generalizing l' with
  | nil => exact h
  | cons path rest ih =>
    change l.Within examiner asked (s.after examiner ((s.read examiner path).run.run l').2 rest)
    refine ih ?_
    cases s with
    | entry e => exact h.discover (hs e rfl) path
    | value found => exact h
    | row r projection =>
      cases hcolumn : column? r projection path with
      | some found =>
        rw [read_row_of_some hcolumn]
        exact h
      | none =>
        rw [read_row_of_none hcolumn, readBehind]
        cases hbacking : r.backing? with
        | none => exact h
        | some e => exact h.discover (hs e hbacking) path

namespace Stage

variable {examiner : Examiner} {noneFirst : Bool} {asked : Entry → Prop} {l l' : Lookups}
  {before : Projection} {row : Row}

/-! ### What a stage does with one row -/

/-- Filtering passes the row itself on. -/
theorem carries_filterRow {declared? : Option Projection} (c : Condition)
    (hrow : Row.Carries (l.MayAnswer examiner asked) asked before declared? row)
    (hl : l.Within examiner asked l') :
    l.Within examiner asked ((filterRow examiner c declared? row).run.run l').2 ∧
      ∀ made, passedOn ((filterRow examiner c declared? row).run.run l').1 = some made →
        Row.Carries (l.MayAnswer examiner asked) asked before declared? made := by
  have hsubject : ∃ s, subject declared? row = .ok s ∧ ∀ e, s.backing? = some e → asked e := by
    cases hrow with
    | entry he => exact ⟨_, rfl, fun e heq => Option.some.inj heq ▸ he⟩
    | projected he hcolumns => exact ⟨_, rfl, fun e heq => Option.some.inj heq ▸ he⟩
  obtain ⟨s, hs, hbacking⟩ := hsubject
  rw [run_filterRow hs]
  refine ⟨Subject.within_after hbacking hl _, fun made hmade => ?_⟩
  rw [eq_of_passedOn_kept hmade]
  exact hrow

/-- What is looked up for columns is what they show of answers. -/
theorem forall₂_mayShow_of_answer {e : Entry} (he : asked e) (hl : l.Within examiner asked l')
    (target : Projection) :
    List.Forall₂ (Column.MayShow (l.MayAnswer examiner asked e)) target
      (target.map fun c => c.shows (l'.answer examiner e c.path)) := by
  rw [List.forall₂_map_right_iff, List.forall₂_same]
  exact fun c _ => ⟨_, hl e he c.path, rfl⟩

/-- Projecting takes values over with their origins. -/
theorem forall₂_mayShow_fill {e : Entry} (he : asked e) (hl : l.Within examiner asked l')
    {declared : Projection} (hpaths : before.paths = declared.paths) {columns : List Found}
    (hcolumns : List.Forall₂ (Column.MayShow (l.MayAnswer examiner asked e)) before columns)
    (target : Projection) :
    List.Forall₂ (Column.MayShow (l.MayAnswer examiner asked e))
      (target.map (origin declared before))
      (fill columns (sources target declared)
        ((missing target declared).map fun c => c.shows (l'.answer examiner e c.path))) := by
  rw [fill_eq_map, List.forall₂_map_left_iff, List.forall₂_map_right_iff, List.forall₂_same]
  intro c _
  rcases origin_cases hpaths c with ⟨hindex, horigin⟩ | ⟨i, d, hindex, hd, -, horigin⟩
  · simp only [hindex, horigin]
    exact ⟨_, hl e he c.path, rfl⟩
  · obtain ⟨v, hv, hshows⟩ := exists_getElem?_of_forall₂ hcolumns hd
    simp only [hindex, horigin, hv, Option.getD_some]
    exact hshows

/-- **Projecting a row** gives one whose columns show what their origins show. -/
theorem carries_projectRow {declared? : Option Projection} (target : Projection)
    (hpaths : ∀ followed, declared? = some followed → before.paths = followed.paths)
    (hrow : Row.Carries (l.MayAnswer examiner asked) asked before declared? row)
    (hl : l.Within examiner asked l') :
    l.Within examiner asked ((projectRow examiner target declared? row).run.run l').2 ∧
      ∀ made, passedOn ((projectRow examiner target declared? row).run.run l').1 = some made →
        Row.Carries (l.MayAnswer examiner asked) asked
          ((Stage.project target declared?).origins before) (some target) made := by
  cases hrow with
  | entry he =>
    rw [run_projectRow_entry]
    refine ⟨hl.after he _, fun made hmade => ?_⟩
    obtain rfl := Option.some.inj hmade
    exact .projected he (forall₂_mayShow_of_answer he hl target)
  | projected he hcolumns =>
    rw [run_projectRow_projected]
    refine ⟨hl.after he _, fun made hmade => ?_⟩
    obtain rfl := Option.some.inj hmade
    exact .projected he (forall₂_mayShow_fill he hl (hpaths _ rfl) hcolumns target)

/-! ### What a stage does with a stream -/

/-- **A stage keeps origins**: if the rows of its input show what their origins show, so do
those that it passes on. -/
theorem carries_run (noneFirst : Bool) {s : Stage} {input : Stream}
    (hpaths : ∀ followed, s.follows = some followed → before.paths = followed.paths)
    (hrows : ∀ row ∈ input.rows,
      Row.Carries (l.MayAnswer examiner asked) asked before s.follows row)
    (hl : l.Within examiner asked l') :
    l.Within examiner asked ((s.run examiner noneFirst input).run l').2 ∧
      ∀ row ∈ ((s.run examiner noneFirst input).run l').1.rows,
        Row.Carries (l.MayAnswer examiner asked) asked (s.origins before) s.declares row := by
  cases s with
  | filter c declared? =>
    obtain ⟨hmade, hleft⟩ := rows_run_filter examiner noneFirst input c declared? l'
    rw [hmade, hleft]
    exact passes_forall (fun row hrow _ hl => carries_filterRow c (hrows row hrow) hl) hl
  | project target declared? =>
    obtain ⟨hmade, hleft⟩ := rows_run_project examiner noneFirst input target declared? l'
    rw [hmade, hleft]
    exact passes_forall
      (fun row hrow _ hl => carries_projectRow target hpaths (hrows row hrow) hl) hl
  | sort keys declared =>
    -- sorting asks nothing and passes on the rows of its input in another order
    refine ⟨hl, fun row hrow => ?_⟩
    have hprojected : input.rows ∈ Set.range (List.map Row.projected) := by
      rw [Set.range_list_map]
      intro row hrow
      cases hrows row hrow with
      | projected he hcolumns => exact ⟨_, rfl⟩
    obtain ⟨rs, hrs⟩ := hprojected
    change row ∈ (sortStream noneFirst keys declared input).rows at hrow
    rw [rows_sortStream noneFirst keys declared hrs.symm] at hrow
    obtain ⟨r, hr, rfl⟩ := List.mem_map.1 hrow
    refine hrows _ ?_
    rw [← hrs]
    exact List.mem_map_of_mem (mem_of_mem_sortedRows hr)

end Stage

/-! ### Rows as a projection declares them -/

/-- A row has the columns that a projection declares, looked up for their origins. -/
structure ProjectedRow.Conforms (answers : String → Except Failure Found → Prop)
    (origins declared : Projection) (r : ProjectedRow) : Prop where
  /-- There is a value for every column. -/
  length_columns : r.columns.length = declared.length
  /-- It is what the origin of the column, which has its path, may show. -/
  mayShow : ∀ (i : Nat) (c : Column), declared[i]? = some c → ∃ d v,
    origins[i]? = some d ∧ r.columns[i]? = some v ∧ d.path = c.path ∧ d.MayShow answers v
  /-- The type of the origin accepts it. -/
  accepts_origin : ∀ (i : Nat) (d : Column) (v : Found), origins[i]? = some d →
    r.columns[i]? = some v → d.type.accepts v = true
  /-- The declared type accepts it, if the type of the origin fits. -/
  accepts : ∀ (i : Nat) (c d : Column) (v : Found), declared[i]? = some c → origins[i]? = some d →
    r.columns[i]? = some v → d.type.fits c.type = true → c.type.accepts v = true

/-- **What origins show is as the projection declares.** -/
theorem ProjectedRow.conforms_of_mayShow {answers : String → Except Failure Found → Prop}
    {origins declared : Projection} {r : ProjectedRow} (hpaths : origins.paths = declared.paths)
    (hcolumns : List.Forall₂ (Column.MayShow answers) origins r.columns) :
    r.Conforms answers origins declared := by
  have haccepts : ∀ (i : Nat) (d : Column) (v : Found), origins[i]? = some d →
      r.columns[i]? = some v → d.type.accepts v = true := by
    intro i d v hd hv
    obtain ⟨v', hv', hshow⟩ := exists_getElem?_of_forall₂ hcolumns hd
    obtain rfl := Option.some.inj (hv.symm.trans hv')
    exact hshow.accepts
  have hlength := Projection.length_eq_of_paths_eq hpaths
  refine ⟨hcolumns.length_eq.symm.trans hlength, fun i c hc => ?_, haccepts,
    fun i c d v _ hd hv hfits => ColumnType.fits_iff.1 hfits v (haccepts i d v hd hv)⟩
  obtain ⟨d, hd, hpath⟩ := Projection.exists_of_paths_eq hpaths hc
  obtain ⟨v, hv, hshow⟩ := exists_getElem?_of_forall₂ hcolumns hd
  exact ⟨d, v, hd, hv, hpath, hshow⟩

/-! ### Stages in a row -/

namespace Pipeline

variable {examiner : Examiner} {noneFirst : Bool}

/-- Stages and the origins of the columns that they declare. -/
def traced (before : Projection) : List Stage → List (Stage × Projection)
  | [] => []
  | s :: rest => (s, s.origins before) :: traced (s.origins before) rest

/-- A sorting step that is not refused has a projection in front of it. -/
theorem exists_of_stage_sort {declared? : Option Projection} {keys : List SortKey} {s : Stage}
    (h : stage declared? (.sort keys) = .ok s) :
    ∃ positions declared, declared? = some declared ∧
      Sorting.positions declared keys = .ok positions ∧ s = .sort positions declared := by
  cases declared? with
  | none => cases h
  | some declared =>
    rw [stage] at h
    split at h
    · next positions hpositions =>
      cases h
      exact ⟨positions, declared, rfl, hpositions, rfl⟩
    · cases h

/-- A stage follows the projection in effect in front of it. -/
theorem follows_of_stage {declared? : Option Projection} {step : Step} {s : Stage}
    (h : stage declared? step = .ok s) : s.follows = declared? := by
  cases step with
  | filter c =>
    cases h
    rfl
  | project target =>
    cases h
    rfl
  | sort keys =>
    obtain ⟨positions, declared, rfl, -, rfl⟩ := exists_of_stage_sort h
    rfl

/-- Stages are those of the first step and those of the others. -/
theorem exists_of_stages_cons {declared? : Option Projection} {step : Step} {rest : List Step}
    {ss : List Stage} (h : stages declared? (step :: rest) = .ok ss) :
    ∃ s ss', stage declared? step = .ok s ∧ stages s.declares rest = .ok ss' ∧ ss = s :: ss' := by
  obtain ⟨s, hs, hrest⟩ := except_bind_eq_ok.1 h
  obtain ⟨ss', hss', heq⟩ := except_bind_eq_ok.1 hrest
  cases heq
  exact ⟨s, ss', hs, hss', rfl⟩

/-- **Every stage of a pipeline keeps origins.** -/
theorem outputs_carries (noneFirst : Bool) {asked : Entry → Prop} {l l' : Lookups}
    {steps : List Step} {declared? : Option Projection} {before : Projection} {input : Stream}
    {ss : List Stage}
    (hstages : stages declared? steps = .ok ss)
    (hpaths : ∀ followed, declared? = some followed → before.paths = followed.paths)
    (hrows : ∀ row ∈ input.rows,
      Row.Carries (l.MayAnswer examiner asked) asked before declared? row)
    (hl : l.Within examiner asked l') :
    List.Forall₂
      (fun (s : Stage × Projection) out => out.projection? = s.1.declares ∧
        (∀ declared, s.1.declares = some declared → s.2.paths = declared.paths) ∧
        ∀ row ∈ out.rows, Row.Carries (l.MayAnswer examiner asked) asked s.2 s.1.declares row)
      (traced before ss) ((outputs examiner noneFirst input ss).run l').1 := by
  induction steps generalizing declared? before input ss l' with
  | nil =>
    cases hstages
    exact .nil
  | cons step rest ih =>
    obtain ⟨s, ss', hs, hss', rfl⟩ := exists_of_stages_cons hstages
    obtain rfl := follows_of_stage hs
    obtain ⟨hstate, hmade⟩ := Stage.carries_run noneFirst hpaths hrows hl
    have hdeclares : ∀ declared, s.declares = some declared →
        (s.origins before).paths = declared.paths := fun _ => Stage.paths_origins hpaths
    exact .cons ⟨Stage.projection?_run s input l', hdeclares, hmade⟩
      (ih hss' hdeclares hmade hstate)

/-- **What every row of every stage holds**: as many columns as the stage declares, each with a
value that was looked up on the entry behind the row, for a column of its path and under the
type of that one. The declared type accepts it too, unless the column it was looked up for is
of a type that does not fit. -/
theorem outputs_columns {steps : List Step} {ss : List Stage} (examiner : Examiner)
    (noneFirst : Bool) (source : List (Except Failure Entry)) (l : Lookups)
    (hstages : stages none steps = .ok ss) :
    List.Forall₂
      (fun (s : Stage × Projection) out => out.projection? = s.1.declares ∧
        ∀ r, .projected r ∈ out.rows → ∃ declared e, s.1.declares = some declared ∧
          .ok e ∈ source ∧ r.backing? = some e ∧
          r.Conforms (l.MayAnswer examiner (.ok · ∈ source) e) s.2 declared)
      (traced [] ss) ((outputs examiner noneFirst (Stream.scan source) ss).run l).1 := by
  have hsource : ∀ row ∈ (Stream.scan source).rows,
      Row.Carries (l.MayAnswer examiner (.ok · ∈ source)) (.ok · ∈ source) [] none row := by
    intro row hrow
    obtain ⟨e, he, rfl⟩ := Stream.exists_of_mem_scan hrow
    exact .entry he
  have houtputs := outputs_carries noneFirst hstages (by simp) hsource
    (l.within_refl examiner (.ok · ∈ source))
  refine houtputs.imp fun s out hout => ⟨hout.1, fun r hr => ?_⟩
  obtain ⟨-, hpaths, hrows⟩ := hout
  have hcarries := hrows _ hr
  cases hdeclares : s.1.declares with
  | none =>
    -- no projected row stands in a stream that declares no projection
    rw [hdeclares] at hcarries
    cases hcarries
  | some declared =>
    rw [hdeclares] at hcarries
    cases hcarries with
    | projected he hcolumns =>
      exact ⟨declared, _, rfl, he, rfl,
        ProjectedRow.conforms_of_mayShow (hpaths declared hdeclares) hcolumns⟩

/-! ### Tickets -/

/-- A ticket has a holder and a seat; no other path can be looked up on it. -/
def ticketExaminer : Examiner := fun e path =>
  if path = "holder" then .ok (.primitive (.string e.uri))
  else if path = "seat" then .ok (.primitive (.number (.integer (.ofNat e.id))))
  else .error (.discovery path "unreachable")

/-- Two tickets in front of one that cannot be read. -/
def tickets : List (Except Failure Entry) :=
  [.ok ⟨1, "zoe", "theatre", "Ticket"⟩, .ok ⟨2, "ann", "theatre", "Ticket"⟩,
    .error (.execution "unreadable")]

/-- The seat and the holder, and the holder once more as a list. -/
def ticketColumns : Projection :=
  [{ path := "seat", type := .number }, { path := "holder" },
    { path := "holder", alias? := some "guests", type := .list }]

/-- The seat in a column of any type and the holder in a column of numbers, with a gate between
them that was not looked up before. -/
def doorColumns : Projection :=
  [{ path := "seat", alias? := some "place" }, { path := "gate", type := .string },
    { path := "holder", type := .number }]

/-- Tickets with a seat by their holders, for the door. -/
def doorSteps : List Step :=
  [.project ticketColumns, .filter [⟨.and, .assertion "seat" (.predicate .isPresent)⟩],
    .sort [⟨"holder", .ascending⟩], .project doorColumns]

/-- The stages of the steps. -/
def doorStages : List Stage :=
  [.project ticketColumns none,
    .filter [⟨.and, .assertion "seat" (.predicate .isPresent)⟩] (some ticketColumns),
    .sort [(1, .ascending)] ticketColumns, .project doorColumns (some ticketColumns)]

theorem outputs_columns_doorSteps :
    stages none doorSteps = .ok doorStages ∧
    List.Forall₂
      (fun (s : Stage × Projection) out => out.projection? = s.1.declares ∧
        ∀ r, .projected r ∈ out.rows → ∃ declared e, s.1.declares = some declared ∧
          .ok e ∈ tickets ∧ r.backing? = some e ∧
          r.Conforms (({} : Lookups).MayAnswer ticketExaminer (.ok · ∈ tickets) e) s.2 declared)
      (traced [] doorStages)
      ((outputs ticketExaminer true (Stream.scan tickets) doorStages).run {}).1 := by
  have hstages : stages none doorSteps = .ok doorStages := rfl
  exact ⟨hstages, outputs_columns ticketExaminer true tickets {} hstages⟩

/-- **A value may stand in a column whose type does not accept it**: the holder, who was looked
up for a column of any type, in a column of numbers. -/
theorem rowsOf_retyped :
    rowsOf ticketExaminer true
        [.project [{ path := "holder" }], .project [{ path := "holder", type := .number }]]
        (Stream.scan (tickets.take 1)) {} =
      .ok [.projected ⟨some ⟨1, "zoe", "theatre", "Ticket"⟩, [.primitive (.string "zoe")]⟩] ∧
    ColumnType.number.accepts (.primitive (.string "zoe")) = false :=
  ⟨rfl, rfl⟩

end Pipeline

end ObjectQuery
