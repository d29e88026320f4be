import Mathlib.Data.List.Induction
import ObjectQuery.Proofs.Pipeline.Columns
import ObjectQuery.Proofs.Pipeline.Sort

/-!
# What stages have counted

A stage counts as it goes, and its tally says what became of its rows. That adds up from the
input to the end, through all the ways in which a row may be lost: a condition or a projection
that fails drops it, an end mark at hand is not passed on, and a sorting stage that meets an
entry, or that breaks off, passes on nothing at all. Every step accounts for what the stage in
front of it has passed on (`Step.Tallies`), and so a whole pipeline does
(`Pipeline.outputs_tallies`).

What carries this is that a stream has as many rows as it has counted as passed on
(`Stream.Exact`). The rest is read off the equations of single stages: `Stage.run_treatAll`
for filters and projections, `Stage.sortStream_of_projected` and `Stage.sortStream_of_entry`
for the ways in which sorting ends. That it breaks off is an accident of numbers: it takes a
double that is the nearest one to two different integers among the values under a key. Then the
rows have been seen and are lost (`Pipeline.outputs_weightsAtHand`).
-/

namespace ObjectQuery

/-! ### Streams -/

namespace Stream

/-- A stream has as many rows as it has counted as passed on. -/
def Exact (s : Stream) : Prop :=
  s.tally.emitted = s.rows.length

/-- An output accounts for all rows of an input: each was seen and dealt with, and no more were
passed on. -/
structure AccountsFor (output input : Stream) : Prop where
  seen : output.tally.seen = input.tally.emitted
  processed : output.tally.processed = input.tally.emitted
  emitted_le : output.tally.emitted ≤ output.tally.seen

/-- **Reading a stream** gives its rows in turn, and then nothing any more. -/
theorem fst_read (s : Stream) (n : Nat) : (s.read n).1 = (List.range n).map (s.rows[·]?) := by
  induction n generalizing s with
  | zero => rfl
  | succ n ih =>
    obtain ⟨rows, projection?, tally⟩ := s
    rw [List.range_succ_eq_map, List.map_cons, List.map_map]
    cases rows with
    | nil => exact congrArg (none :: ·) (ih _)
    | cons row rest => exact congrArg (some row :: ·) (ih _)

end Stream

/-! ### Inputs -/

/-- What a pipeline is fed: a source of entries, or rows at hand with end marks among them. -/
inductive Feed where
  | source (items : List (Except Failure Entry))
  | atHand (projection? : Option Projection) (rows : List (Option Row))

namespace Feed

/-- The stream that a pipeline is fed. -/
def stream : Feed → Stream
  | .source items => .scan items
  | .atHand projection? rows => .ofRows projection? rows

/-- What a stream has counted of what a pipeline is fed. -/
inductive Tallies : Feed → Stream → Prop
  /-- Of a source, the entries in front of the first that it fails to give. -/
  | source {entries : List Entry} {rest : List (Except Failure Entry)} {s : Stream}
    (hrest : rest = [] ∨ ∃ failure more, rest = .error failure :: more)
    (hrows : s.rows = entries.map .entry)
    (htally : s.tally = ⟨entries.length, entries.length, entries.length⟩) :
    Tallies (.source (entries.map .ok ++ rest)) s
  /-- Of rows at hand all are seen and dealt with, and those that are no end marks passed on. -/
  | atHand {projection? : Option Projection} {rows : List (Option Row)} {s : Stream}
    (hrows : s.rows = rows.filterMap id)
    (htally : s.tally = ⟨rows.length, rows.length, (rows.filterMap id).length⟩) :
    Tallies (.atHand projection? rows) s

end Feed

/-- The stream of rows at hand. -/
theorem Stream.ofRows_eq (projection? : Option Projection) (rows : List (Option Row)) :
    ofRows projection? rows =
      { rows := rows.filterMap id
        projection?
        tally := ⟨rows.length, rows.length, (rows.filterMap id).length⟩ } := by
  -- the last row is counted in the stream of those in front of it
  induction rows using List.reverseRecOn with
  | nil => rfl
  | append_singleton rows row ih =>
    cases row with
    | none =>
      have hlast : ofRows projection? (rows ++ [none]) = (ofRows projection? rows).see.process :=
        List.foldl_append
      rw [hlast, ih, List.filterMap_append, List.length_append]
      simp [see, process]
    | some row =>
      have hlast : ofRows projection? (rows ++ [some row]) =
          (ofRows projection? rows).see.process.emit row := List.foldl_append
      rw [hlast, ih, List.filterMap_append, List.length_append, List.length_append]
      simp [see, process, emit]

theorem Feed.tallies_stream (feed : Feed) : feed.Tallies feed.stream := by
  cases feed with
  | source items =>
    obtain ⟨entries, rest, rfl, hrest⟩ := Stream.exists_source_eq items
    have hscan := Stream.scan_append entries hrest
    exact .source hrest (congrArg Stream.rows hscan) (congrArg Stream.tally hscan)
  | atHand projection? rows =>
    have hrows := Stream.ofRows_eq projection? rows
    exact .atHand (congrArg Stream.rows hrows) (congrArg Stream.tally hrows)

theorem Feed.Tallies.exact {feed : Feed} {s : Stream} (h : feed.Tallies s) : s.Exact := by
  cases h with
  | source _ hrows htally => rw [Stream.Exact, hrows, htally, List.length_map]
  | atHand hrows htally => rw [Stream.Exact, hrows, htally]

/-! ### Steps -/

/-- What the output of a step has counted of its input. -/
inductive Step.Tallies (input output : Stream) : Step → Prop
  | filter {condition : Condition} (h : output.AccountsFor input) :
    Tallies input output (.filter condition)
  | project {target : Projection} (h : output.AccountsFor input) :
    Tallies input output (.project target)
  /-- Projected rows are all passed on. -/
  | sorted {keys : List SortKey} {rs : List ProjectedRow} (hrows : input.rows = rs.map .projected)
    (h : output.AccountsFor input) (hemitted : output.tally.emitted = input.tally.emitted) :
    Tallies input output (.sort keys)
  /-- Where sorting breaks off they are seen, and that is all. A double among the values under
  a key then blurs two integers. -/
  | brokenOff {keys : List SortKey} {rs : List ProjectedRow} {p : Projection}
    (hrows : input.rows = rs.map .projected) (hprojection : input.projection? = some p)
    (hblurs : Sorting.BlursUnder p keys rs)
    (htally : output.tally = ⟨input.tally.emitted, 0, 0⟩) (hout : output.rows = []) :
    Tallies input output (.sort keys)
  /-- An entry is seen like the projected rows in front of it, and that is all. -/
  | stopped {keys : List SortKey} {rs : List ProjectedRow} {e : Entry} {rest : List Row}
    (hrows : input.rows = rs.map .projected ++ .entry e :: rest)
    (htally : output.tally = ⟨rs.length + 1, 0, 0⟩) (hout : output.rows = []) :
    Tallies input output (.sort keys)

namespace Stage

variable {input : Stream}

/-- **Treating all rows of an input accounts for it.** -/
theorem accountsFor_treatAll (h : input.Exact) (f : Row → LookupM (Option Row))
    (projection? : Option Projection) (l : Lookups) :
    ((treatAll f { projection? } input.rows).run l).1.AccountsFor input ∧
      ((treatAll f { projection? } input.rows).run l).1.Exact := by
  have hle := length_passes_le f input.rows l
  rw [run_treatAll]
  simp only [Nat.zero_add, List.nil_append]
  exact ⟨⟨h.symm, h.symm, hle⟩, rfl⟩

/-- **Sorting an input** accounts for it, breaks off or stops. -/
theorem tallies_sortStream (h : input.Exact) (noneFirst : Bool) {declared : Projection}
    {keys : List SortKey} {positions : List (Nat × Direction)}
    (hprojection : input.projection? = some declared)
    (hpositions : Sorting.positions declared keys = .ok positions) :
    (Step.sort keys).Tallies input (sortStream noneFirst positions declared input) ∧
      (sortStream noneFirst positions declared input).Exact := by
  rcases projected_or_entry input.rows with ⟨rs, hrows⟩ | ⟨rs, e, rest, hrows⟩
  · have hlength : rs.length = input.tally.emitted := by rw [h, hrows, List.length_map]
    rw [sortStream_of_projected noneFirst positions declared hrows]
    refine ⟨?_, by rw [Stream.Exact, List.length_map]⟩
    cases hsorted : sortRows noneFirst positions rs with
    | none =>
      have hblurs := blursUnder_of_sortRows_eq_none hpositions hsorted
      have hnil : sortedRows noneFirst positions rs = [] := by rw [sortedRows, hsorted]; rfl
      rw [hnil]
      exact .brokenOff hrows hprojection hblurs (by rw [← hlength]; rfl) rfl
    | some sorted =>
      have hall : (sortedRows noneFirst positions rs).length = input.tally.emitted := by
        rw [sortedRows, hsorted, Option.getD_some, (sortRows_perm hsorted).length_eq, hlength]
      exact .sorted hrows ⟨hlength, hall, by rw [hall, hlength]⟩ hall
  · rw [sortStream_of_entry noneFirst positions declared hrows]
    exact ⟨.stopped hrows rfl rfl, rfl⟩

/-- **The stage of a step** counts what the step has to. -/
theorem tallies_run {step : Step} {s : Stage}
    (hs : Pipeline.stage input.projection? step = .ok s) (h : input.Exact) (examiner : Examiner)
    (noneFirst : Bool) (l : Lookups) :
    step.Tallies input ((s.run examiner noneFirst input).run l).1 ∧
      ((s.run examiner noneFirst input).run l).1.Exact := by
  cases step with
  | filter condition =>
    cases hs
    exact (accountsFor_treatAll h _ _ l).imp_left .filter
  | project target =>
    cases hs
    exact (accountsFor_treatAll h _ _ l).imp_left .project
  | sort keys =>
    obtain ⟨positions, declared, hprojection, hpositions, rfl⟩ := Pipeline.exists_of_stage_sort hs
    exact tallies_sortStream h noneFirst hprojection hpositions

end Stage

/-! ### Pipelines -/

namespace Pipeline

/-- What the outputs of steps have counted, each of the one in front of it. -/
inductive Tallies : Stream → List Step → List Stream → Prop
  | nil {input : Stream} : Tallies input [] []
  | cons {input output : Stream} {step : Step} {rest : List Step} {outs : List Stream}
    (hstep : step.Tallies input output) (hrest : Tallies output rest outs) :
    Tallies input (step :: rest) (output :: outs)

theorem tallies_outputs {steps : List Step} {ss : List Stage} {input : Stream}
    (hstages : stages input.projection? steps = .ok ss) (h : input.Exact)
    (examiner : Examiner) (noneFirst : Bool) (l : Lookups) :
    Tallies input steps ((outputs examiner noneFirst input ss).run l).1 ∧
      ∀ out ∈ ((outputs examiner noneFirst input ss).run l).1, out.Exact := by
  induction steps generalizing input ss l with
  | nil =>
    cases hstages
    exact ⟨.nil, fun out hout => absurd hout List.not_mem_nil⟩
  | cons step rest ih =>
    obtain ⟨s, ss', hs, hss', rfl⟩ := exists_of_stages_cons hstages
    obtain ⟨hstep, hexact⟩ := Stage.tallies_run hs h examiner noneFirst l
    have hdeclares : s.declares = ((s.run examiner noneFirst input).run l).1.projection? :=
      (s.projection?_run input l).symm
    rw [hdeclares] at hss'
    obtain ⟨hrest, hall⟩ := ih hss' hexact ((s.run examiner noneFirst input).run l).2
    exact ⟨.cons hstep hrest, List.forall_mem_cons.2 ⟨hexact, hall⟩⟩

/-- **Every row of a pipeline is accounted for.** The stream that it is fed has counted what it
was fed, and every step what the stage in front of it has passed on. All of them have as many
rows as they have passed on, and reading the last one gives its rows in turn and then, however
often, nothing. -/
theorem outputs_tallies (feed : Feed) {steps : List Step} {ss : List Stage}
    (hstages : stages feed.stream.projection? steps = .ok ss) (examiner : Examiner)
    (noneFirst : Bool) (l : Lookups) :
    let outs := ((outputs examiner noneFirst feed.stream ss).run l).1
    let last := lastOutput feed.stream outs
    feed.Tallies feed.stream ∧ Tallies feed.stream steps outs ∧
      (∀ out ∈ feed.stream :: outs, out.tally.emitted = out.rows.length) ∧
      ∀ n, (last.read n).1 = (List.range n).map (last.rows[·]?) := by
  have hfeed := feed.tallies_stream
  obtain ⟨houts, hexact⟩ := tallies_outputs hstages hfeed.exact examiner noneFirst l
  exact ⟨hfeed, houts, List.forall_mem_cons.2 ⟨hfeed.exact, hexact⟩, Stream.fst_read _⟩

/-! ### Tickets at hand -/

/-- The row of a ticket. -/
def ticketRow (seat : Integer) (holder : String) : Row :=
  .projected ⟨none, [.primitive (.number (.integer seat)), .primitive (.string holder)]⟩

/-- Two tickets, an end mark, and a ticket that nobody has looked at, behind which there is one
more. -/
def ticketsAtHand : Feed :=
  .atHand (some ticketColumns)
    [some (ticketRow (.ofNat 4) "zoe"), some (ticketRow (.ofNat 2) "ann"), none,
      some (.entry ⟨3, "joe", "theatre", "Ticket"⟩), some (ticketRow (.ofNat 1) "sue")]

/-- All tickets that have a seat, by their holders. -/
def seatedSteps : List Step :=
  [.filter [⟨.and, .assertion "seat" (.predicate .isPresent)⟩], .sort [⟨"holder", .ascending⟩],
    .project doorColumns]

/-- The stages of the steps. -/
def seatedStages : List Stage :=
  [.filter [⟨.and, .assertion "seat" (.predicate .isPresent)⟩] (some ticketColumns),
    .sort [(1, .ascending)] ticketColumns, .project doorColumns (some ticketColumns)]

theorem outputs_tallies_ticketsAtHand :
    stages ticketsAtHand.stream.projection? seatedSteps = .ok seatedStages ∧
    let outs := ((outputs ticketExaminer true ticketsAtHand.stream seatedStages).run {}).1
    let last := lastOutput ticketsAtHand.stream outs
    ticketsAtHand.Tallies ticketsAtHand.stream ∧ Tallies ticketsAtHand.stream seatedSteps outs ∧
      (∀ out ∈ ticketsAtHand.stream :: outs, out.tally.emitted = out.rows.length) ∧
      ∀ n, (last.read n).1 = (List.range n).map (last.rows[·]?) := by
  have hstages : stages ticketsAtHand.stream.projection? seatedSteps = .ok seatedStages := rfl
  exact ⟨hstages, outputs_tallies ticketsAtHand hstages ticketExaminer true {}⟩

/-- Sorting stops at the ticket that nobody has looked at. -/
example :
    (ticketsAtHand.stream ::
        ((outputs ticketExaminer true ticketsAtHand.stream seatedStages).run {}).1).map (·.tally) =
      [⟨5, 5, 4⟩, ⟨4, 4, 4⟩, ⟨3, 0, 0⟩, ⟨0, 0, 0⟩] :=
  rfl

/-! ### Weights at hand -/

/-- Twenty-two things that have been weighed. -/
def weightsAtHand : Feed :=
  .atHand (some [{ path := "weight" }])
    (blurredWeights.map fun w => some (.projected (weightRow w)))

/-- **Where numbers blur, sorting loses its rows**: it has seen all twenty-two, has dealt with
none of them and passes on none. -/
theorem outputs_weightsAtHand :
    weightsAtHand.stream.rows = (blurredWeights.map weightRow).map .projected ∧
    weightsAtHand.stream.tally.emitted = 22 ∧
    stages weightsAtHand.stream.projection? [.sort [⟨"weight", .ascending⟩]] =
      .ok [.sort [(0, .ascending)] [{ path := "weight" }]] ∧
    ∃ out, ((outputs ticketExaminer true weightsAtHand.stream
        [.sort [(0, .ascending)] [{ path := "weight" }]]).run {}).1 = [out] ∧
      out.tally = ⟨22, 0, 0⟩ ∧ out.rows = [] ∧ ¬out.AccountsFor weightsAtHand.stream := by
  have hrows : weightsAtHand.stream.rows = (blurredWeights.map weightRow).map .projected := rfl
  have hlost : Stage.sortedRows true [(0, .ascending)] (blurredWeights.map weightRow) = [] := by
    rw [Stage.sortedRows, Stage.sortRows_blurredWeights]
    rfl
  have hout := Stage.sortStream_of_projected true [(0, .ascending)] [{ path := "weight" }] hrows
  rw [hlost] at hout
  refine ⟨hrows, rfl, rfl, _, rfl, ?_, ?_, fun h => ?_⟩
  · exact congrArg Stream.tally hout
  · exact congrArg Stream.rows hout
  · -- none of the twenty-two has been dealt with
    have hprocessed := h.processed
    rw [hout] at hprocessed
    cases hprocessed

end Pipeline

end ObjectQuery
