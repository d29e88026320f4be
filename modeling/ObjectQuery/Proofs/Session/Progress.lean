import Mathlib.Logic.Function.Iterate
import ObjectQuery.Proofs.Plan.Implicit
import ObjectQuery.Proofs.Session.Run

/-!
# The progress of a run

A run can be watched one instruction at a time. Its **progress** is the session as it is by
then, what the instructions that ran have come to, a failure if one of them failed, and the
instructions that are left; `Progress.next` runs the first of these. Watched to the end, this
is what running the script comes to (`Script.execute_progress`).

Nothing but the first instruction left is ever looked at. So what comes behind some
instructions does not show before they have run (`Progress.iterate_next_followedBy`), and as a
script is planned from the front as well, **later instructions never influence earlier ones**
(`Script.execute_append`).
-/

namespace ObjectQuery

/-- How far a run of a plan has come. -/
structure Progress where
  session : Session
  /-- The instructions that are left. -/
  rest : Plan
  /-- What the instructions that ran have come to. -/
  outcomes : List Outcome := []
  /-- Why the run ended, if an instruction failed. -/
  failure? : Option Failure := none

namespace Progress

/-- Runs the next instruction, unless one has failed or none is left. -/
def next (a : Access) (settings : Settings) (p : Progress) : Progress :=
  match p.failure?, p.rest with
  | none, i :: rest =>
    match (Execute.runInstruction a settings i).run.run p.session with
    | (.ok outcome, session) => { session, rest, outcomes := p.outcomes ++ [outcome] }
    | (.error failure, session) =>
      { session, rest, outcomes := p.outcomes, failure? := some failure }
  | _, _ => p

/-- What is reported if nothing is left. -/
def report (p : Progress) : Report :=
  match p.failure? with
  | some failure => .ofFailure failure
  | none => .done p.outcomes

/-- The same progress with more instructions behind those that are left. -/
def followedBy (p : Progress) (later : Plan) : Progress :=
  { p with rest := p.rest ++ later }

end Progress

/-- The progress of a plan after some of its instructions. -/
def Plan.progress (plan : Plan) (a : Access) (settings : Settings) (session : Session) (n : Nat) :
    Progress :=
  (Progress.next a settings)^[n] { session, rest := plan }

namespace Progress

variable {a : Access} {settings : Settings} {p : Progress}

/-! ### One instruction -/

theorem next_of_failure {failure : Failure} (h : p.failure? = some failure) :
    next a settings p = p := by
  rw [next, h]

theorem next_of_ok {i : Instruction} {rest : Plan} {outcome : Outcome} {session : Session}
    (h : p.failure? = none) (hrest : p.rest = i :: rest)
    (hrun : (Execute.runInstruction a settings i).run.run p.session = (.ok outcome, session)) :
    next a settings p = { session, rest, outcomes := p.outcomes ++ [outcome] } := by
  simp only [next, h, hrest, hrun]

theorem next_of_error {i : Instruction} {rest : Plan} {failure : Failure} {session : Session}
    (h : p.failure? = none) (hrest : p.rest = i :: rest)
    (hrun : (Execute.runInstruction a settings i).run.run p.session = (.error failure, session)) :
    next a settings p = { session, rest, outcomes := p.outcomes, failure? := some failure } := by
  simp only [next, h, hrest, hrun]

/-- **What one instruction can do**: it adds an outcome or a failure, and is left no more. A
run that has ended stays as it is. -/
theorem next_cases (a : Access) (settings : Settings) (p : Progress) :
    (∃ i rest outcome session, p.failure? = none ∧ p.rest = i :: rest ∧
      (Execute.runInstruction a settings i).run.run p.session = (.ok outcome, session) ∧
      next a settings p = { session, rest, outcomes := p.outcomes ++ [outcome] }) ∨
    (∃ i rest failure session, p.failure? = none ∧ p.rest = i :: rest ∧
      (Execute.runInstruction a settings i).run.run p.session = (.error failure, session) ∧
      next a settings p = { session, rest, outcomes := p.outcomes, failure? := some failure }) ∨
    ((p.failure? ≠ none ∨ p.rest = []) ∧ next a settings p = p) := by
  cases hfailure : p.failure? with
  | some failure => exact .inr (.inr ⟨.inl nofun, next_of_failure hfailure⟩)
  | none =>
    cases hrest : p.rest with
    | nil => exact .inr (.inr ⟨.inr rfl, by simp only [next, hfailure, hrest]⟩)
    | cons i rest =>
      rcases hrun : (Execute.runInstruction a settings i).run.run p.session with
        ⟨result, session⟩
      cases result with
      | ok outcome =>
        exact .inl ⟨i, rest, outcome, session, rfl, rfl, hrun, next_of_ok hfailure hrest hrun⟩
      | error failure =>
        exact .inr (.inl ⟨i, rest, failure, session, rfl, rfl, hrun,
          next_of_error hfailure hrest hrun⟩)

theorem length_rest_next (a : Access) (settings : Settings) (p : Progress) :
    p.rest.length ≤ (next a settings p).rest.length + 1 := by
  rcases next_cases a settings p with
    ⟨i, rest, outcome, session, -, hrest, -, hnext⟩ |
    ⟨i, rest, failure, session, -, hrest, -, hnext⟩ | ⟨-, hnext⟩
  · rw [hnext, hrest]
    exact Nat.le_refl _
  · rw [hnext, hrest]
    exact Nat.le_refl _
  · rw [hnext]
    exact Nat.le_succ _

/-- What instructions have come to stays. -/
theorem outcomes_next_isPrefix (a : Access) (settings : Settings) (p : Progress) :
    p.outcomes <+: (next a settings p).outcomes := by
  rcases next_cases a settings p with
    ⟨i, rest, outcome, session, -, -, -, hnext⟩ | ⟨i, rest, failure, session, -, -, -, hnext⟩ |
    ⟨-, hnext⟩
  · rw [hnext]
    exact List.prefix_append _ _
  · simp only [hnext, List.prefix_refl]
  · simp only [hnext, List.prefix_refl]

/-- **While an instruction is left, those behind it do not show.** -/
theorem next_followedBy (h : p.rest ≠ []) (later : Plan) :
    next a settings (p.followedBy later) = (next a settings p).followedBy later := by
  rcases next_cases a settings p with
    ⟨i, rest, outcome, session, hfailure, hrest, hrun, hnext⟩ |
    ⟨i, rest, failure, session, hfailure, hrest, hrun, hnext⟩ | ⟨hended, hnext⟩
  · have hmore : (p.followedBy later).rest = i :: (rest ++ later) := by
      rw [followedBy, hrest, List.cons_append]
    rw [hnext, next_of_ok (p := p.followedBy later) hfailure hmore hrun]
    rfl
  · have hmore : (p.followedBy later).rest = i :: (rest ++ later) := by
      rw [followedBy, hrest, List.cons_append]
    rw [hnext, next_of_error (p := p.followedBy later) hfailure hmore hrun]
    rfl
  · obtain ⟨failure, hfailure⟩ := Option.ne_none_iff_exists'.1 (hended.resolve_right h)
    rw [hnext, next_of_failure (p := p.followedBy later) hfailure]

/-! ### Instructions one after another -/

/-- **Instructions behind those that have run do not show.** -/
theorem iterate_next_followedBy {n : Nat} (h : n ≤ p.rest.length) (later : Plan) :
    (next a settings)^[n] (p.followedBy later) = ((next a settings)^[n] p).followedBy later := by
  induction n generalizing p with
  | zero => rfl
  | succ n ih =>
    have hleft := length_rest_next a settings p
    have hne : p.rest ≠ [] := List.ne_nil_of_length_pos (by omega)
    rw [Function.iterate_succ_apply, Function.iterate_succ_apply, next_followedBy hne]
    exact ih (by omega)

theorem iterate_next_of_failure {failure : Failure} (h : p.failure? = some failure) (n : Nat) :
    (next a settings)^[n] p = p :=
  Function.iterate_fixed (next_of_failure h) n

theorem outcomes_iterate_next_isPrefix (a : Access) (settings : Settings) (p : Progress) (n : Nat) :
    p.outcomes <+: ((next a settings)^[n] p).outcomes := by
  induction n generalizing p with
  | zero => exact List.prefix_refl _
  | succ n ih => exact (outcomes_next_isPrefix a settings p).trans (ih (next a settings p))

/-- **Watched to the end, a run is the run of the plan**: of what is left, behind what has
been done. -/
theorem iterate_next_length (a : Access) (settings : Settings) (h : p.failure? = none) :
    let ran := (Execute.runPlan a settings p.rest).run.run p.session
    let ended := (next a settings)^[p.rest.length] p
    ended.session = ran.2 ∧ ended.report = Report.ofRun (ran.1.map (p.outcomes ++ ·)) := by
  obtain ⟨session, rest, outcomes, failure?⟩ := p
  obtain rfl : failure? = none := h
  induction rest generalizing session outcomes with
  | nil => exact ⟨rfl, congrArg Report.done (List.append_nil _).symm⟩
  | cons i rest ih =>
    simp only [List.length_cons, Function.iterate_succ_apply, Execute.runPlan]
    rcases hrun : (Execute.runInstruction a settings i).run.run session with
      ⟨result, session'⟩
    cases result with
    | error failure =>
      rw [next_of_error rfl rfl hrun, iterate_next_of_failure rfl, run_bind_of_error hrun]
      exact ⟨rfl, rfl⟩
    | ok outcome =>
      -- what has been done so far stands in front of what the rest of the plan comes to
      rw [next_of_ok rfl rfl hrun, run_bind_of_ok hrun]
      obtain ⟨hsession, hreport⟩ := ih session' (outcomes ++ [outcome])
      rcases hrest : (Execute.runPlan a settings rest).run.run session' with
        ⟨result, session''⟩
      rw [hrest] at hsession hreport
      cases result with
      | ok others =>
        rw [run_bind_of_ok hrest]
        refine ⟨hsession, hreport.trans (congrArg Report.done ?_)⟩
        exact List.append_assoc _ _ _
      | error failure =>
        rw [run_bind_of_error hrest]
        exact ⟨hsession, hreport⟩

end Progress

/-- **A run watched to its end is the run of the script.** -/
theorem Script.execute_progress {script : Script} {settings : Settings} {plan : Plan}
    (h : Plan.ofScript script settings.defaultStrategy = .ok plan) (a : Access)
    (session : Session) :
    (script.execute a settings).run session =
      ((plan.progress a settings session plan.length).report,
        (plan.progress a settings session plan.length).session) := by
  obtain ⟨hsession, hreport⟩ :=
    Progress.iterate_next_length a settings (p := { session, rest := plan }) rfl
  have hall : ∀ ran : Except Failure (List Outcome), ran.map ([] ++ ·) = ran := by
    intro ran
    cases ran <;> rfl
  rw [Script.execute_run h rfl]
  exact Prod.ext ((hreport.trans (congrArg Report.ofRun (hall _))).symm) hsession.symm

/-! ### Two plans with the same front -/

namespace Plan

/-- The progress of a plan shows nothing of the instructions behind those that have run. -/
theorem progress_append (plan later : Plan) (a : Access) (settings : Settings) (session : Session)
    {n : Nat} (h : n ≤ plan.length) :
    (plan ++ later).progress a settings session n =
      (plan.progress a settings session n).followedBy later :=
  Progress.iterate_next_followedBy (p := { session, rest := plan }) h later

/-- What a plan has come to stays while it goes on. -/
theorem outcomes_progress_isPrefix (plan : Plan) (a : Access) (settings : Settings)
    (session : Session) {m n : Nat} (h : m ≤ n) :
    (plan.progress a settings session m).outcomes <+:
      (plan.progress a settings session n).outcomes := by
  obtain ⟨k, rfl⟩ := Nat.exists_eq_add_of_le' h
  rw [progress, progress, Function.iterate_add_apply]
  exact Progress.outcomes_iterate_next_isPrefix a settings _ k

end Plan

theorem Progress.outcomes_of_report {p : Progress} {outcomes : List Outcome}
    (h : p.report = .done outcomes) : p.outcomes = outcomes := by
  rw [report] at h
  split at h
  · next failure _ => cases failure <;> cases h
  · exact Report.done.inj h

/-- **Later instructions never influence earlier ones.** If a script is planned, its front is
planned as well, and that plan stands at its head. From every session, both runs have the same
progress as long as the plan of the front goes: the instructions have come to the same, and
store and lookups are the same. So what the front comes to stands at the head of what the
whole script comes to, if both run to their ends. -/
theorem Script.execute_append {front back : Script} {settings : Settings} {plan : Plan}
    (h : Plan.ofScript (front ++ back) settings.defaultStrategy = .ok plan) :
    ∃ plan', Plan.ofScript front settings.defaultStrategy = .ok plan' ∧ plan' <+: plan ∧
      ∀ (a : Access) (session : Session),
        let alone := plan'.progress a settings session
        let whole := plan.progress a settings session
        (∀ n ≤ plan'.length, (whole n).outcomes = (alone n).outcomes ∧
          (whole n).failure? = (alone n).failure? ∧ (whole n).session = (alone n).session) ∧
        (front.execute a settings).run session =
          ((alone plan'.length).report, (alone plan'.length).session) ∧
        ((front ++ back).execute a settings).run session =
          ((whole plan.length).report, (whole plan.length).session) ∧
        ∀ outcomes outcomes', ((front.execute a settings).run session).1 = .done outcomes →
          (((front ++ back).execute a settings).run session).1 = .done outcomes' →
            outcomes <+: outcomes' := by
  obtain ⟨plan', later, hfront, rfl⟩ := Plan.ofScript_append h
  refine ⟨plan', hfront, List.prefix_append _ _, fun a session => ?_⟩
  have halone := execute_progress hfront a session
  have hwhole := execute_progress h a session
  have hsame : ∀ n ≤ plan'.length, (plan' ++ later).progress a settings session n =
      (plan'.progress a settings session n).followedBy later :=
    fun n hn => plan'.progress_append later a settings session hn
  refine ⟨fun n hn => ?_, halone, hwhole, fun outcomes outcomes' hdone hdone' => ?_⟩
  · rw [hsame n hn]
    exact ⟨rfl, rfl, rfl⟩
  · rw [halone] at hdone
    rw [hwhole] at hdone'
    have hlength : plan'.length ≤ (plan' ++ later).length := by
      rw [List.length_append]
      exact Nat.le_add_right _ _
    have hprefix := (plan' ++ later).outcomes_progress_isPrefix a settings session hlength
    rw [hsame _ (Nat.le_refl _), Progress.outcomes_of_report hdone'] at hprefix
    rw [← Progress.outcomes_of_report hdone]
    exact hprefix

/-! ### A house once more -/

/-- Everything in a house. -/
def houseScript : Script :=
  [.query { target := house }]

/-- Behind other queries of the house this one still gets an index of its own. -/
def namesHousePlan : Plan :=
  namesPlan ++ [.index { target := house, isImplicit := true }, .query { target := house }]

theorem Script.execute_append_namesHouse :
    Plan.ofScript (namesScript ++ houseScript) .initial = .ok namesHousePlan ∧
    ∃ plan', Plan.ofScript namesScript .initial = .ok plan' ∧ plan' <+: namesHousePlan ∧
      ∀ (a : Access) (session : Session),
        let alone := plan'.progress a {} session
        let whole := namesHousePlan.progress a {} session
        (∀ n ≤ plan'.length, (whole n).outcomes = (alone n).outcomes ∧
          (whole n).failure? = (alone n).failure? ∧ (whole n).session = (alone n).session) ∧
        (namesScript.execute a {}).run session =
          ((alone plan'.length).report, (alone plan'.length).session) ∧
        ((namesScript ++ houseScript).execute a {}).run session =
          ((whole namesHousePlan.length).report, (whole namesHousePlan.length).session) ∧
        ∀ outcomes outcomes', ((namesScript.execute a {}).run session).1 = .done outcomes →
          (((namesScript ++ houseScript).execute a {}).run session).1 = .done outcomes' →
            outcomes <+: outcomes' :=
  ⟨rfl, @Script.execute_append namesScript houseScript {} namesHousePlan rfl⟩

end ObjectQuery
