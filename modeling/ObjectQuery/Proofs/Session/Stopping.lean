import ObjectQuery.Proofs.Plan.Implicit
import ObjectQuery.Proofs.Session.Limit
import ObjectQuery.Proofs.Session.Run

/-!
# Where a script stops

A script comes to nothing in two ways, and they leave different sessions behind. One that is
not planned leaves the session as it was, wherever the instruction at fault stands. One that
is planned runs up to the first instruction that fails, and what was done in front of that one
stays done: nothing is taken back, and nothing is left of the instruction itself
(`Script.execute_stops`).

Which instructions fail does not depend on the session. They are the updates, and the indexes
of targets that may not be indexed that way (`Instruction.FailsWith`); such an instruction fails
in every session and leaves it as it is (`Execute.run_of_failsWith`), and all others succeed in
every session (`Execute.exists_run_of_succeeds`). Among these a query is the one that looks
things up, but what fails there is shown in its rows, and its pipeline is never refused.

How a failure is reported is its own matter. A store that takes an index for impermissible has
it reported as such, with the instruction it names, and so has no other failure
(`Script.execute_impermissible_index`).
-/

namespace ObjectQuery

/-- An instruction fails: it is an update, or an index whose target may not be indexed by its
strategy. -/
inductive Instruction.FailsWith (a : Access) : Instruction → Failure → Prop
  | refused {i : IndexInstruction} {failure : Failure}
    (h : a.refuse i.strategy i.target = some failure) : FailsWith a (.index i) failure
  | unsupported (u : UpdateInstruction) : FailsWith a (.update u) (Execute.updateUnsupported u)

/-- An instruction does not fail. -/
def Instruction.Succeeds (a : Access) (i : Instruction) : Prop :=
  ∀ failure, ¬i.FailsWith a failure

namespace Execute

variable {a : Access} {i : Instruction} {failure : Failure}

/-! ### One instruction -/

/-- **A query shows something**, whatever lookups come to. -/
theorem exists_run_resultOf (examiner : Examiner) (settings : Settings) (q : QueryInstruction)
    (entries : List Entry) (l : Lookups) :
    ∃ result l', (resultOf examiner settings q entries).run.run l = (.ok result, l') := by
  by_cases hsort : q.sort = []
  · exact ⟨_, _, run_resultOf_unordered settings hsort l⟩
  · obtain ⟨keys, hkeys⟩ := exists_positions q
    have hcollect : ∃ rows l', (Pipeline.collect examiner settings.nullsFirst
        (orderedSteps q (orderedColumns q)) (entries.map .ok)).run.run l = (.ok rows, l') := by
      rw [Pipeline.collect, stages_orderedSteps hkeys]
      exact ⟨_, _, rfl⟩
    obtain ⟨rows, l', hrows⟩ := hcollect
    rw [resultOf_of_ordered settings hsort, runOrdered, run_bind_of_ok hrows]
    exact ⟨_, _, rfl⟩

/-- **An instruction that fails leaves the session as it is.** -/
theorem run_of_failsWith (h : i.FailsWith a failure) (settings : Settings) (session : Session) :
    (runInstruction a settings i).run.run session = (.error failure, session) := by
  cases h with
  | refused hrefuse =>
    -- the lookups of the session are the only ones that are asked about
    obtain ⟨_, rfl, hrun⟩ := brings_runIndex_refused (P := (· = session.lookups)) hrefuse
      session.store session.lookups rfl
    exact hrun
  | unsupported u => rfl

/-- **An instruction that does not fail succeeds in every session.** -/
theorem exists_run_of_succeeds (h : i.Succeeds a) (settings : Settings) (session : Session) :
    ∃ outcome session',
      (runInstruction a settings i).run.run session = (.ok outcome, session') := by
  cases i with
  | index i =>
    have hrefuse : a.refuse i.strategy i.target = none :=
      Option.eq_none_iff_forall_ne_some.2 fun failure hfailure => h failure (.refused hfailure)
    obtain ⟨_, rfl, hrun⟩ := brings_runIndex (P := (· = session.lookups)) hrefuse
      session.store session.lookups rfl
    exact ⟨_, _, hrun⟩
  | query q =>
    obtain ⟨result, l', hresult⟩ := exists_run_resultOf a.examine settings q
      (session.store.get q.target) session.lookups
    have hget : (get : SessionM Session).run.run session = (.ok session, session) := rfl
    have hrun : (runQuery a settings q).run.run session =
        (.ok (.queried q.text result), { session with lookups := l' }) := by
      rw [runQuery, run_bind_of_ok hget, run_bind_of_ok (SessionM.run_onLookups hresult)]
      rfl
    exact ⟨_, _, hrun⟩
  | update u => exact absurd (.unsupported u) (h _)

/-! ### Instructions one after another -/

/-- Instructions that succeed come to something each. -/
theorem exists_runPlan_of_succeeds {plan : Plan} (h : ∀ i ∈ plan, i.Succeeds a)
    (settings : Settings) (session : Session) :
    ∃ outcomes session', outcomes.length = plan.length ∧
      (runPlan a settings plan).run.run session = (.ok outcomes, session') := by
  induction plan generalizing session with
  | nil => exact ⟨[], session, rfl, rfl⟩
  | cons i rest ih =>
    obtain ⟨outcome, session', hfirst⟩ :=
      exists_run_of_succeeds (h i List.mem_cons_self) settings session
    obtain ⟨outcomes, session'', hlength, hrest⟩ :=
      ih (fun i' hi' => h i' (List.mem_cons_of_mem _ hi')) session'
    exact ⟨outcome :: outcomes, session'', congrArg (· + 1) hlength,
      runPlan_cons_eq_ok.2 ⟨outcome, outcomes, session', rfl, hfirst, hrest⟩⟩

/-- **A plan stops at an instruction that fails**, in the session that the instructions in
front of it left. -/
theorem runPlan_stops {before : Plan} {outcomes : List Outcome} {session session' : Session}
    {settings : Settings}
    (hbefore : (runPlan a settings before).run.run session = (.ok outcomes, session'))
    (hi : i.FailsWith a failure) (after : Plan) :
    (runPlan a settings (before ++ i :: after)).run.run session = (.error failure, session') := by
  induction before generalizing session outcomes with
  | nil =>
    cases hbefore
    rw [List.nil_append, runPlan, run_bind_of_error (run_of_failsWith hi settings _)]
  | cons first rest ih =>
    obtain ⟨outcome, others, between, rfl, hfirst, hrest⟩ := runPlan_cons_eq_ok.1 hbefore
    rw [List.cons_append, runPlan, run_bind_of_ok hfirst, run_bind_of_error (ih hrest)]

end Execute

/-! ### Scripts -/

/-- A script that is not planned leaves the session as it is. -/
theorem Script.execute_of_rejected {script : Script} {settings : Settings} {failure : Failure}
    (h : Plan.ofScript script settings.defaultStrategy = .error failure) (a : Access)
    (session : Session) :
    (script.execute a settings).run session = (.ofFailure failure, session) := by
  rw [execute, h]
  rfl

/-- All failures but those that name an instruction are reported by their messages. -/
theorem Report.ofFailure_eq_unknownError {failure : Failure}
    (h : ∀ detail text, failure ≠ .impermissible detail text) :
    ofFailure failure = .unknownError failure.message := by
  cases failure with
  | impermissible detail text => exact absurd rfl (h detail text)
  | _ => rfl

theorem Report.outcomes_ofFailure (failure : Failure) : (ofFailure failure).outcomes = [] := by
  cases failure <;> rfl

/-- **Where a script stops.** If it is not planned, the first instruction that should name a
schema and does not is reported, and the session is as it was, wherever that instruction
stands. If it is planned and an instruction of the plan is the first that fails, its failure is
reported and no outcome, in the session that the instructions in front of it left. That is
reported as an unknown error, unless the store itself takes an instruction for impermissible.
If no instruction fails, the script runs to its end. -/
theorem Script.execute_stops (script : Script) (a : Access) (settings : Settings)
    (session : Session) :
    (∀ failure, Plan.ofScript script settings.defaultStrategy = .error failure →
      ∃ before x after, script = before ++ x :: after ∧
        (∀ y ∈ before, ¬Plan.NamesNoSchema y) ∧ Plan.NamesNoSchema x ∧
        (script.execute a settings).run session =
          (.impermissible "instruction must name at least one schema" x.text, session)) ∧
    ∀ plan, Plan.ofScript script settings.defaultStrategy = .ok plan →
      (∀ before i after failure, plan = before ++ i :: after → (∀ y ∈ before, y.Succeeds a) →
        i.FailsWith a failure →
        ∃ outcomes session' report, outcomes.length = before.length ∧
          (Execute.runPlan a settings before).run.run session = (.ok outcomes, session') ∧
          (script.execute a settings).run session = (report, session') ∧
          report = .ofFailure failure ∧ report.outcomes = [] ∧
          ((∀ detail text, failure ≠ .impermissible detail text) →
            report = .unknownError failure.message)) ∧
      ((∀ y ∈ plan, y.Succeeds a) →
        ∃ outcomes session', outcomes.length = plan.length ∧
          (Execute.runPlan a settings plan).run.run session = (.ok outcomes, session') ∧
          (script.execute a settings).run session = (.done outcomes, session')) := by
  refine ⟨fun failure hrejected => ?_, fun plan hplan => ⟨?_, fun hsucceed => ?_⟩⟩
  · obtain ⟨before, x, after, rfl, hbefore, hx⟩ := Plan.exists_split_of_ofScript_eq_error hrejected
    exact ⟨before, x, after, rfl, hbefore, hx, execute_of_rejected
      (Plan.ofScript_eq_error hbefore hx after settings.defaultStrategy) a session⟩
  · rintro before i after failure rfl hbefore hi
    obtain ⟨outcomes, session', hlength, hran⟩ :=
      Execute.exists_runPlan_of_succeeds hbefore settings session
    exact ⟨outcomes, session', _, hlength, hran,
      execute_run hplan (Execute.runPlan_stops hran hi after), rfl,
      Report.outcomes_ofFailure failure, Report.ofFailure_eq_unknownError⟩
  · obtain ⟨outcomes, session', hlength, hran⟩ :=
      Execute.exists_runPlan_of_succeeds hsucceed settings session
    exact ⟨outcomes, session', hlength, hran, execute_run hplan hran⟩

/-! ### A closed town -/

/-- The access of the two lamps, with a town that may not be indexed. -/
def closedTown : Access where
  examine := twoLamps.examine
  refuse _ t := if t.schemas.contains "town" then some (.index "refused town") else none

/-- The index of the town, which the names of the house stand in front of. -/
def townIndex : IndexInstruction where
  target := { schemas := NameSet.ofList ["town"] }
  strategy := .onDemand

/-- The names in a house, and a change that is never made behind an index that names no schema. -/
def namelessScript : Script :=
  namesScript ++ [.index { target := { schemas := .empty } }, .update { target := house }]

theorem Script.execute_stops_closedTown :
    (∃ before x after, namelessScript = before ++ x :: after ∧
      (∀ y ∈ before, ¬Plan.NamesNoSchema y) ∧ Plan.NamesNoSchema x ∧
      (namelessScript.execute closedTown {}).run indexedLamps =
        (.impermissible "instruction must name at least one schema" x.text, indexedLamps)) ∧
    (Plan.ofScript namesScript .initial = .ok namesPlan ∧
      namesPlan = namesPlan.take 2 ++ .index townIndex :: namesPlan.drop 3 ∧
      (∀ y ∈ namesPlan.take 2, y.Succeeds closedTown) ∧
      (Instruction.index townIndex).FailsWith closedTown (.index "refused town")) ∧
    (∃ outcomes session', outcomes.length = 2 ∧
      (Execute.runPlan closedTown {} (namesPlan.take 2)).run.run { store := twoLamps } =
        (.ok outcomes, session') ∧
      (namesScript.execute closedTown {}).run { store := twoLamps } =
        (.unknownError "Index error: refused town", session')) ∧
    ∃ outcomes session', outcomes.length = 2 ∧
      (Execute.runPlan closedTown {} (namesPlan.take 2)).run.run { store := twoLamps } =
        (.ok outcomes, session') ∧
      (Script.execute (namesScript.take 1) closedTown {}).run { store := twoLamps } =
        (.done outcomes, session') := by
  have hsucceed : ∀ y ∈ namesPlan.take 2, y.Succeeds closedTown := by
    intro y hy failure hfails
    simp only [namesPlan, namesScript, List.take_succ_cons, List.take_zero, List.mem_cons,
      List.not_mem_nil, or_false] at hy
    rcases hy with rfl | rfl
    · cases hfails with
      | refused hrefuse => cases hrefuse
    · cases hfails
  have hfails : (Instruction.index townIndex).FailsWith closedTown (.index "refused town") :=
    .refused rfl
  obtain ⟨outcomes, session', report, hlength, hran, hexecute, -, -, hunknown⟩ :=
    ((execute_stops namesScript closedTown {} { store := twoLamps }).2 namesPlan rfl).1
      (namesPlan.take 2) (.index townIndex) (namesPlan.drop 3) _ rfl hsucceed hfails
  rw [hunknown fun detail text h => by cases h] at hexecute
  exact ⟨(execute_stops namelessScript closedTown {} indexedLamps).1 _ rfl,
    ⟨rfl, rfl, hsucceed, hfails⟩, ⟨outcomes, session', hlength, hran, hexecute⟩,
    ((execute_stops (namesScript.take 1) closedTown {} { store := twoLamps }).2
      (namesPlan.take 2) rfl).2 hsucceed⟩

/-- The house stays indexed and its names looked up when the town is refused. -/
example :
    let (report, session) := (namesScript.execute closedTown {}).run { store := twoLamps }
    (report.outcomes.length, session.store.indexed,
      session.lookups.calls.map fun question => (question.1.uri, question.2)) =
      (0, [1, 3], [("lamps/1", "name"), ("lamps/2", "name")]) :=
  rfl

/-! ### A house that is not fetched -/

/-- The access of the two lamps, to a store that takes fetching anything for impermissible. -/
def neverFetched : Access where
  examine := twoLamps.examine
  refuse strategy _ :=
    if strategy.fetches then some (.impermissible "nothing is fetched here" "INDEX house") else none

/-- The index of a house by a strategy. -/
def houseIndex (strategy : Strategy) : IndexInstruction where
  target := house
  strategy

/-- An index on demand, which comes to something, and one of the same house that fetches it. -/
def houseTwice : Script :=
  [.index (houseIndex .onDemand), .index (houseIndex .initial)]

/-- **An index may be impermissible.** The failure is then not reported as an unknown error, even
though it is the store that refuses. -/
theorem Script.execute_impermissible_index :
    Plan.ofScript houseTwice .initial =
      .ok [.index (houseIndex .onDemand), .index (houseIndex .initial)] ∧
    (Instruction.index (houseIndex .onDemand)).Succeeds neverFetched ∧
    (Instruction.index (houseIndex .initial)).FailsWith neverFetched
      (.impermissible "nothing is fetched here" "INDEX house") ∧
    (houseTwice.execute neverFetched {}).run indexedLamps =
      (.impermissible "nothing is fetched here" "INDEX house", indexedLamps) ∧
    ∀ message,
      ((houseTwice.execute neverFetched {}).run indexedLamps).1 ≠ .unknownError message := by
  refine ⟨rfl, fun failure hfails => ?_, .refused rfl, rfl, fun message => ?_⟩
  · cases hfails with
    | refused hrefuse => cases hrefuse
  · rintro ⟨⟩

end ObjectQuery
