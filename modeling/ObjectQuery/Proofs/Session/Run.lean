import ObjectQuery.Proofs.Plan.Implicit
import ObjectQuery.Proofs.Session.Query

/-!
# What a run of a script comes to

What an instruction does to a store, and what it comes to, is its `Execute.Effect`; the
effects of the instructions of a plan, up to the first that fails, are put together by
`Execute.RunsTo`. Neither speaks of lookups: under every invariant under which lookups
come to what the examiner answers, running has the same effects
(`Execute.exists_runsTo`).

A query only sees what has been indexed in front of it. `Store.Knows s before e` says
that the entry `e` is stored in `s` and was indexed there, or is indexed by the
instructions `before`; running an instruction moves it from the one side to the other
(`Store.knows_refresh`), and that is the invariant which carries a run. With it, an
unordered and unlimited query shows exactly the known entries of its target that fulfil
its condition (`ResultSet.ShowsMatches`), and a script without updates, none of whose
indexes is refused, runs to its end (`Script.execute_done`).
-/

namespace ObjectQuery

/-! ### Plans -/

/-- A plan makes an entry known: one of its indexes covers it and fetches. -/
def Plan.Fetches (p : Plan) (e : Entry) : Prop :=
  ∃ i, .index i ∈ p ∧ i.strategy ≠ .onDemand ∧ i.target.covers e = true

theorem Plan.fetches_index_cons {i : IndexInstruction} {p : Plan} {e : Entry} :
    Plan.Fetches (.index i :: p) e ↔
      (i.strategy.fetches = true ∧ i.target.covers e = true) ∨ p.Fetches e := by
  simp only [Fetches, List.mem_cons, Instruction.index.injEq, or_and_right, exists_or,
    exists_eq_left, Strategy.fetches_eq_true]

theorem Plan.fetches_query_cons {q : QueryInstruction} {p : Plan} {e : Entry} :
    Plan.Fetches (.query q :: p) e ↔ p.Fetches e := by
  simp only [Fetches, List.mem_cons, reduceCtorEq, false_or]

/-- A plan has the updates of its script only. -/
theorem Plan.update_not_mem_ofScript {script : Script} {strategy : Strategy} {plan : Plan}
    (h : ofScript script strategy = .ok plan) {u : UpdateInstruction} (hu : .update u ∉ script) :
    .update u ∉ plan := by
  obtain ⟨-, rfl⟩ := ofScript_eq_ok_iff.1 h
  intro hmem
  rcases mem_withIndexes hmem with hmem | ⟨q, -, heq⟩
  · exact hu hmem
  · cases heq

/-! ### Known entries -/

namespace Store

/-- The entries known to a store once a plan has run: those it holds that were indexed
before, or that the plan makes known. -/
def Knows (s : Store) (before : Plan) (e : Entry) : Prop :=
  e ∈ s.entries ∧ (e.id ∈ s.indexed ∨ before.Fetches e)

/-- **Running an index moves it to the instructions in front**: what it indexed is known,
and nothing else has become so. -/
theorem knows_refresh {s : Store} (h : s.WellNumbered) (i : IndexInstruction) (before : Plan)
    (e : Entry) :
    (s.refresh i.strategy i.target).2.Knows before e ↔ s.Knows (.index i :: before) e := by
  rw [Knows, Knows, entries_refresh]
  refine and_congr_right fun he => ?_
  rw [mem_indexed_refresh h.numbered he, Plan.fetches_index_cons, or_assoc]

theorem knows_query {s : Store} (q : QueryInstruction) (before : Plan) (e : Entry) :
    s.Knows before e ↔ s.Knows (.query q :: before) e := by
  rw [Knows, Knows, Plan.fetches_query_cons]

/-- What indexing counts does not depend on what was indexed before. -/
theorem fst_refresh_congr {s s' : Store} (h : s'.objects = s.objects) (strategy : Strategy)
    (t : Target) : (s'.refresh strategy t).1 = (s.refresh strategy t).1 := by
  rw [refresh, refresh]
  split
  · rw [covered, covered, h]
  · rfl

end Store

/-! ### What instructions come to -/

/-- A result set shows the matches of a query among candidates: a row for each candidate
that the target covers and that fulfils the condition when it is evaluated with nothing
looked up before, in the order of their numbers, with what the columns show of it. -/
structure ResultSet.ShowsMatches (result : ResultSet) (examiner : Examiner)
    (q : QueryInstruction) (candidate : Entry → Prop) : Prop where
  columns : result.columns = q.columns
  ascending : result.rows.Pairwise fun row row' => row.entry.id < row'.entry.id
  rows : ∀ e, (∃ row ∈ result.rows, row.entry = e) ↔
    candidate e ∧ q.target.covers e = true ∧
      ((Condition.holds examiner (.entry e) q.condition).run.run {}).1 = .ok true
  cells : ∀ row ∈ result.rows, row.cells.Shows q.columns (examiner row.entry)

/-- What an instruction comes to in a run that started with the store given, when other
instructions ran in front of it. -/
inductive Instruction.ComesTo (examiner : Examiner) (s : Store) (before : Plan) :
    Instruction → Outcome → Prop
  | index (i : IndexInstruction) :
    ComesTo examiner s before (.index i) (.indexed i (s.refresh i.strategy i.target).1)
  | query {q : QueryInstruction} {result : ResultSet} :
    (q.sort = [] → q.limit.toInt ≤ 0 → result.ShowsMatches examiner q (s.Knows before)) →
    ComesTo examiner s before (.query q) (.queried q.text result)

/-- Which instruction ran first does not matter to the ones behind it, but for the entries
known. -/
theorem Instruction.ComesTo.step {examiner : Examiner} {s s' : Store} {first i : Instruction}
    {before : Plan} {outcome : Outcome} (hobjects : s'.objects = s.objects)
    (hknows : ∀ e, s'.Knows before e ↔ s.Knows (first :: before) e)
    (h : i.ComesTo examiner s' before outcome) :
    i.ComesTo examiner s (first :: before) outcome := by
  cases h with
  | index i =>
    rw [Store.fst_refresh_congr hobjects]
    exact .index i
  | query hresult =>
    rw [funext fun e => propext (hknows e)] at hresult
    exact .query hresult

namespace Execute

/-- Among the entries of a store that are indexed, a query shows its matches. -/
theorem showsMatches_unorderedResult {s : Store} (h : s.WellNumbered) (examiner : Examiner)
    (q : QueryInstruction) :
    (unorderedResult examiner q (s.get q.target)).ShowsMatches examiner q (s.Knows []) := by
  have hn := h.numbered_get q.target
  refine ⟨rfl, ?_, fun e => ?_, fun row hrow => ?_⟩
  · exact List.pairwise_map.2 (hn.filter _)
  · have hverdict : ((Condition.holds examiner (.entry e) q.condition).run.run {}).1 =
        Condition.verdict (examiner e) q.condition := by
      rw [Condition.fst_holds, Subject.view_entry]
      rfl
    have hfetches : ¬Plan.Fetches [] e := by simp [Plan.Fetches]
    -- no row gets lost or is about two entries, since a row knows the entry it is about
    have hrows : (∃ row ∈ (unorderedResult examiner q (s.get q.target)).rows, row.entry = e) ↔
        e ∈ Matching.matching examiner q.condition (s.get q.target) := by
      simp only [unorderedResult, List.mem_map]
      constructor
      · rintro ⟨_, ⟨e', he', rfl⟩, rfl⟩
        exact he'
      · exact fun he => ⟨_, ⟨e, he, rfl⟩, rfl⟩
    rw [hrows, Matching.mem_matching, hverdict, h.get_eq, List.mem_filter, Bool.and_eq_true,
      List.contains_iff_mem, Store.Knows, or_iff_left hfetches, and_assoc, and_assoc, and_assoc]
  · obtain ⟨e, -, rfl⟩ := List.mem_map.1 hrow
    exact Cells.shows_ofFound _ _

/-! ### Effects -/

/-- What an instruction comes to on a store, and the store it leaves, where all lookups are
answered as the examiner does. -/
inductive Effect (a : Access) (s : Store) : Instruction → Except Failure Outcome → Store → Prop
  | indexed {i : IndexInstruction} : a.refuse i.strategy i.target = none →
    Effect a s (.index i) (.ok (.indexed i (s.refresh i.strategy i.target).1))
      (s.refresh i.strategy i.target).2
  | refused {i : IndexInstruction} {failure : Failure} :
      a.refuse i.strategy i.target = some failure →
    Effect a s (.index i) (.error failure) s
  | queried {q : QueryInstruction} {result : ResultSet} :
    (q.sort = [] → q.limit.toInt ≤ 0 → result.ShowsMatches a.examine q (s.Knows [])) →
    Effect a s (.query q) (.ok (.queried q.text result)) s
  | unsupported (u : UpdateInstruction) :
    Effect a s (.update u) (.error (updateUnsupported u)) s

/-- What a plan comes to on a store, up to the first instruction that fails. -/
inductive RunsTo (a : Access) : Store → Plan → Except Failure (List Outcome) → Store → Prop
  | nil (s : Store) : RunsTo a s [] (.ok []) s
  | cons {s s' s'' : Store} {first : Instruction} {rest : Plan} {outcome : Outcome}
      {r : Except Failure (List Outcome)} :
    Effect a s first (.ok outcome) s' → RunsTo a s' rest r s'' →
    RunsTo a s (first :: rest) (r.map (outcome :: ·)) s''
  | stop {s s' : Store} {first : Instruction} {rest : Plan} {failure : Failure} :
    Effect a s first (.error failure) s' → RunsTo a s (first :: rest) (.error failure) s'

variable {a : Access} {s s' : Store} {i : Instruction} {r : Except Failure Outcome} {plan : Plan}
  {rs : Except Failure (List Outcome)}

/-! ### What effects leave as it was -/

theorem Effect.wellNumbered (h : Effect a s i r s') (hs : s.WellNumbered) : s'.WellNumbered := by
  cases h with
  | indexed _ => exact hs.refresh _ _
  | refused _ => exact hs
  | queried _ => exact hs
  | unsupported _ => exact hs

/-- No instruction changes the objects of a store. -/
theorem Effect.objects_eq (h : Effect a s i r s') : s'.objects = s.objects := by
  cases h with
  | indexed _ => exact Store.objects_refresh _ _ _
  | refused _ => rfl
  | queried _ => rfl
  | unsupported _ => rfl

theorem RunsTo.wellNumbered (h : RunsTo a s plan rs s') (hs : s.WellNumbered) :
    s'.WellNumbered := by
  induction h with
  | nil _ => exact hs
  | cons hfirst _ ih => exact ih (hfirst.wellNumbered hs)
  | stop hfirst => exact hfirst.wellNumbered hs

theorem RunsTo.objects_eq (h : RunsTo a s plan rs s') : s'.objects = s.objects := by
  induction h with
  | nil _ => rfl
  | cons hfirst _ ih => exact ih.trans hfirst.objects_eq
  | stop hfirst => exact hfirst.objects_eq

/-! ### Running has these effects -/

section Running

variable {P : Lookups → Prop}

/-- **Running an instruction has an effect**, the same from all lookups under an invariant
under which they come to what the examiner answers. -/
theorem exists_effect (h : s.WellNumbered) (hP : AnsweredBy P a.examine a.examine s.entries)
    (settings : Settings) (i : Instruction) :
    ∃ r s', Brings P s (runInstruction a settings i) r s' ∧ Effect a s i r s' := by
  cases i with
  | index i =>
    cases hrefuse : a.refuse i.strategy i.target with
    | none => exact ⟨_, _, brings_runIndex hrefuse s, .indexed hrefuse⟩
    | some failure => exact ⟨_, _, brings_runIndex_refused hrefuse s, .refused hrefuse⟩
  | query q =>
    have hanswered := hP.mono fun _ => h.get_subset q.target
    by_cases hplain : q.sort = [] ∧ q.limit.toInt ≤ 0
    · have hgives := gives_resultOf_unordered hanswered (h.numbered_get q.target) settings
        hplain.1 hplain.2
      exact ⟨_, s, brings_runQuery hgives,
        .queried fun _ _ => showsMatches_unorderedResult h a.examine q⟩
    · obtain ⟨result, hgives⟩ := gives_resultOf hanswered settings q
      exact ⟨_, s, brings_runQuery hgives,
        .queried fun hsort hlimit => absurd ⟨hsort, hlimit⟩ hplain⟩
  | update u => exact ⟨_, s, fun l hl => ⟨l, hl, rfl⟩, .unsupported u⟩

/-- **Running a plan has the effects of its instructions** one after another. -/
theorem exists_runsTo (h : s.WellNumbered) (hP : AnsweredBy P a.examine a.examine s.entries)
    (settings : Settings) (plan : Plan) :
    ∃ rs s', Brings P s (runPlan a settings plan) rs s' ∧ RunsTo a s plan rs s' := by
  induction plan generalizing s with
  | nil => exact ⟨_, s, Brings.pure [], .nil s⟩
  | cons first rest ih =>
    obtain ⟨r, s', hfirst, heffect⟩ := exists_effect h hP settings first
    cases r with
    | error failure => exact ⟨_, s', hfirst.bind_error, .stop heffect⟩
    | ok outcome =>
      -- the invariant speaks of the stored entries, which are the same for the rest
      have hentries : s'.entries = s.entries := congrArg (List.map _) heffect.objects_eq
      obtain ⟨rs, s'', hrest, hruns⟩ := ih (heffect.wellNumbered h) (hentries ▸ hP)
      exact ⟨_, s'', hfirst.bind (hrest.map _), .cons heffect hruns⟩

end Running

/-! ### Plans that succeed -/

/-- A plan succeeds if its first instruction does and the rest does behind it. -/
theorem runPlan_cons_eq_ok {settings : Settings} {rest : Plan} {outcomes : List Outcome}
    {session session' : Session} :
    (runPlan a settings (i :: rest)).run.run session = (.ok outcomes, session') ↔
      ∃ outcome others between, outcomes = outcome :: others ∧
        (runInstruction a settings i).run.run session = (.ok outcome, between) ∧
        (runPlan a settings rest).run.run between = (.ok others, session') := by
  rw [runPlan]
  constructor
  · intro h
    rcases hfirst : (runInstruction a settings i).run.run session with ⟨failure | outcome, between⟩
    · rw [run_bind_of_error hfirst] at h
      cases h
    rw [run_bind_of_ok hfirst] at h
    rcases hrest : (runPlan a settings rest).run.run between with ⟨failure | others, last⟩
    · rw [run_bind_of_error hrest] at h
      cases h
    rw [run_bind_of_ok hrest] at h
    cases h
    exact ⟨outcome, others, between, rfl, rfl, hrest⟩
  · rintro ⟨outcome, others, between, rfl, hfirst, hrest⟩
    rw [run_bind_of_ok hfirst, run_bind_of_ok hrest]
    rfl

/-- The instructions that succeed: queries, and indexes that are not refused. -/
def Allowed (a : Access) : Instruction → Prop
  | .index i => a.refuse i.strategy i.target = none
  | .query _ => True
  | .update _ => False

/-- An instruction that succeeds comes to what it should, and what it indexed is known
afterwards. -/
theorem Effect.comesTo (h : Effect a s i r s') (hs : s.WellNumbered) (hi : Allowed a i) :
    ∃ outcome, r = .ok outcome ∧ i.ComesTo a.examine s [] outcome ∧
      ∀ before e, s'.Knows before e ↔ s.Knows (i :: before) e := by
  cases h with
  | @indexed i _ => exact ⟨_, rfl, .index i, Store.knows_refresh hs i⟩
  | refused hrefuse =>
    have hnone : a.refuse _ _ = none := hi
    rw [hnone] at hrefuse
    cases hrefuse
  | @queried q _ hresult => exact ⟨_, rfl, .query hresult, Store.knows_query q⟩
  | unsupported u => cases hi

/-- **A plan that succeeds**: each of its instructions comes to what it should behind the
instructions in front of it. -/
theorem RunsTo.comesTo (h : RunsTo a s plan rs s') (hs : s.WellNumbered)
    (hplan : ∀ i ∈ plan, Allowed a i) :
    ∃ outcomes, rs = .ok outcomes ∧ outcomes.length = plan.length ∧
      ∀ before i after, plan = before ++ i :: after →
        ∃ outcome, outcomes[before.length]? = some outcome ∧
          i.ComesTo a.examine s before outcome := by
  induction h with
  | nil s => exact ⟨[], rfl, rfl, by simp⟩
  | @cons s s' _ first rest outcome _ hfirst _ ih =>
    obtain ⟨_, hok, hcomes, hknows⟩ := hfirst.comesTo hs (hplan first List.mem_cons_self)
    obtain rfl := Except.ok.inj hok
    obtain ⟨outcomes, rfl, hlength, houtcomes⟩ :=
      ih (hfirst.wellNumbered hs) fun i hi => hplan i (List.mem_cons_of_mem _ hi)
    refine ⟨outcome :: outcomes, rfl, congrArg (· + 1) hlength, fun before i after heq => ?_⟩
    -- the instruction asked for is the first one, or stands behind it
    cases before with
    | nil =>
      obtain ⟨rfl, -⟩ := List.cons.inj heq
      exact ⟨outcome, rfl, hcomes⟩
    | cons _ before =>
      obtain ⟨rfl, hsplit⟩ := List.cons.inj heq
      obtain ⟨other, hother, hcomes'⟩ := houtcomes before i after hsplit
      exact ⟨other, hother, hcomes'.step hfirst.objects_eq (hknows before)⟩
  | @stop s s' first rest _ hfirst =>
    obtain ⟨outcome, hok, -⟩ := hfirst.comesTo hs (hplan first List.mem_cons_self)
    cases hok

end Execute

/-- The report of what a plan came to. -/
def Report.ofRun : Except Failure (List Outcome) → Report
  | .ok outcomes => .done outcomes
  | .error failure => .ofFailure failure

/-- Running a script runs its plan. -/
theorem Script.execute_run {script : Script} {a : Access} {settings : Settings} {plan : Plan}
    (h : Plan.ofScript script settings.defaultStrategy = .ok plan) {session session' : Session}
    {r : Except Failure (List Outcome)}
    (hrun : (Execute.runPlan a settings plan).run.run session = (r, session')) :
    (script.execute a settings).run session = (Report.ofRun r, session') := by
  rw [Script.execute, h]
  change StateT.run (match ((Execute.runPlan a settings plan).run.run session).1 with
    | .ok outcomes => pure (Report.done outcomes)
    | .error failure => pure (Report.ofFailure failure))
      ((Execute.runPlan a settings plan).run.run session).2 = _
  rw [hrun]
  cases r <;> rfl

/-- **A script of indexes and queries runs to its end**: from a reachable store and with
nothing looked up before, if no index of its plan is refused, every instruction of the
plan comes to what it should behind the instructions in front of it. -/
theorem Script.execute_done {store : Store} (hs : store.Reachable) {script : Script}
    (hupdates : ∀ u, .update u ∉ script) (a : Access) (settings : Settings) {plan : Plan}
    (hplan : Plan.ofScript script settings.defaultStrategy = .ok plan)
    (hrefused : ∀ i, .index i ∈ plan → a.refuse i.strategy i.target = none) :
    ∃ outcomes, ((script.execute a settings).run { store }).1 = .done outcomes ∧
      outcomes.length = plan.length ∧
      ∀ before i after, plan = before ++ i :: after →
        ∃ outcome, outcomes[before.length]? = some outcome ∧
          i.ComesTo a.examine store before outcome := by
  have hallowed : ∀ i ∈ plan, Execute.Allowed a i := by
    intro i hi
    cases i with
    | index i => exact hrefused i hi
    | query q => trivial
    | update u => exact Plan.update_not_mem_ofScript hplan (hupdates u) hi
  obtain ⟨_, _, hbrings, hruns⟩ := Execute.exists_runsTo hs.wellNumbered
    (Lookups.answeredBy_faithful hs.wellNumbered.numbered a.examine) settings plan
  obtain ⟨outcomes, rfl, hlength, houtcomes⟩ := hruns.comesTo hs.wellNumbered hallowed
  obtain ⟨_, -, hrun⟩ := hbrings {} (Lookups.faithful_empty _ _)
  exact ⟨outcomes, congrArg Prod.fst (Script.execute_run hplan hrun), hlength, houtcomes⟩

/-! ### The names of two lamps -/

/-- The names in a house, and the names in a town that is indexed on demand only. -/
def namesScript : Script :=
  [.query { target := house, columns := [⟨"name", "Name"⟩] },
   .index { target := { schemas := NameSet.ofList ["town"] }, strategy := .onDemand },
   .query { target := { schemas := NameSet.ofList ["town"] }, columns := [⟨"name", "Name"⟩] }]

/-- The first query needs an implicit index. -/
def namesPlan : Plan :=
  .index { target := house, isImplicit := true } :: namesScript

theorem Script.execute_done_names :
    (twoLamps.Reachable ∧ (∀ u, .update u ∉ namesScript) ∧
      Plan.ofScript namesScript .initial = .ok namesPlan ∧
      ∀ i, .index i ∈ namesPlan → twoLamps.access.refuse i.strategy i.target = none) ∧
    ∃ outcomes, ((namesScript.execute twoLamps.access {}).run { store := twoLamps }).1 =
        .done outcomes ∧
      outcomes.length = namesPlan.length ∧
      ∀ before i after, namesPlan = before ++ i :: after →
        ∃ outcome, outcomes[before.length]? = some outcome ∧
          i.ComesTo twoLamps.access.examine twoLamps before outcome :=
  have hupdates : ∀ u, .update u ∉ namesScript := by simp [namesScript]
  ⟨⟨reachable_twoLamps, hupdates, rfl, fun _ _ => rfl⟩,
    Script.execute_done reachable_twoLamps hupdates twoLamps.access {} rfl fun _ _ => rfl⟩

/-- Nothing of the town is known when its query runs. -/
example :
    ((namesScript.execute twoLamps.access {}).run { store := twoLamps }).1.resultSets.map
        (fun result => result.rows.map (·.entry.uri)) =
      [["lamps/1", "lamps/2"], []] :=
  rfl

end ObjectQuery
