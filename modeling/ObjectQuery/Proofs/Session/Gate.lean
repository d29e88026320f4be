import ObjectQuery.CommandLine
import ObjectQuery.Proofs.Session.Run

/-!
# Gates on the way of a run

What is said of scripts elsewhere is said without gates. The program makes one for every query
that it comes to, and has no report if one of them would be too wide. Which queries it comes to
is not known in advance: they are those in front of which every instruction has succeeded, and
the gate of a query depends on what is indexed by then (`Gate.admitsPlan_iff`).

So the program either reports what the script comes to, or it has met a gate that is too wide
(`CommandLine.report_cases`). Settings that never ask for more permits than there can be are out
of the question (`Gate.admitsScript_of_fits`), and for these all that is known of `Script.execute`
is known of the program.
-/

namespace ObjectQuery

namespace Gate

variable {a : Access} {settings : Settings}

/-! ### The gates that a run comes to -/

/-- **A run is admitted exactly if every gate that it comes to is**, in the session as it is by
then. -/
theorem admitsPlan_iff {plan : Plan} {session : Session} :
    admitsPlan a settings plan session = true ↔
      ∀ before i after outcomes session', plan = before ++ i :: after →
        (Execute.runPlan a settings before).run.run session = (.ok outcomes, session') →
          admits settings session'.store i = true := by
  induction plan generalizing session with
  | nil => exact iff_of_true rfl (by simp)
  | cons first rest ih =>
    rw [admitsPlan, Bool.and_eq_true]
    constructor
    · rintro ⟨hfirst, hrest⟩ before i after outcomes session' heq hran
      cases before with
      | nil =>
        cases heq
        cases hran
        exact hfirst
      | cons _ before =>
        obtain ⟨rfl, rfl⟩ := List.cons.inj heq
        obtain ⟨outcome, others, between, -, hinstruction, hran⟩ :=
          Execute.runPlan_cons_eq_ok.1 hran
        have hbetween : (Execute.runInstruction a settings first).run session =
            (.ok outcome, between) := hinstruction
        rw [hbetween] at hrest
        exact ih.1 hrest before i after others session' rfl hran
    · intro h
      refine ⟨h [] first rest [] session rfl rfl, ?_⟩
      rcases hinstruction : (Execute.runInstruction a settings first).run session with
        ⟨failure | outcome, between⟩
      · rfl
      · refine ih.2 fun before i after others session' heq hran => ?_
        exact h (first :: before) i after (outcome :: others) session' (by rw [heq]; rfl)
          (Execute.runPlan_cons_eq_ok.2 ⟨outcome, others, between, rfl, hinstruction, hran⟩)

/-! ### Settings that fit -/

/-- No gate that settings ask for has more permits than there can be. -/
structure Fits (settings : Settings) : Prop where
  filter : settings.filterPermits ≤ maxPermits
  projection : settings.projectionPermits ≤ maxPermits
  workers : settings.pipelineWorkers ≤ maxPermits

theorem admits_of_fits (h : Fits settings) (s : Store) (i : Instruction) :
    admits settings s i = true := by
  cases i with
  | index i => rfl
  | update u => rfl
  | query q =>
    have hbound : ∀ n, permits? settings q (s.get q.target) = some n → n ≤ maxPermits := by
      intro n hn
      rw [permits?] at hn
      split_ifs at hn with hsort hentries hworkers
      · rw [Settings.entryPermits] at hn
        obtain ⟨hfilter, hprojection, -⟩ := h
        split_ifs at hn <;> obtain rfl := Option.some.inj hn <;>
          exact max_le (by decide) (by assumption)
      · exact Option.some.inj hn ▸ h.workers
    rw [admits, Option.all_eq_true]
    exact fun n hn => decide_eq_true (hbound n hn)

/-- **Settings that fit admit every script.** -/
theorem admitsScript_of_fits (h : Fits settings) (a : Access) (script : Script)
    (session : Session) : admitsScript a settings script session = true := by
  rw [admitsScript]
  cases Plan.ofScript script settings.defaultStrategy with
  | error failure => rfl
  | ok plan => exact admitsPlan_iff.2 fun _ i _ _ session' _ _ => admits_of_fits h session'.store i

/-- The settings that hold if nothing is set. -/
example : Fits {} := ⟨by decide, by decide, by decide⟩

end Gate

namespace CommandLine

/-- **What the program reports** is what the script comes to, unless the run comes to a gate that
is too wide. -/
theorem report_cases (settings : Settings) (store : Store) (script : Script) :
    report settings store script = .ok ((script.execute store.access settings).run { store }).1 ∨
      report settings store script = .error Gate.tooWide ∧
        ∃ plan before i after outcomes session',
          Plan.ofScript script settings.defaultStrategy = .ok plan ∧
          plan = before ++ i :: after ∧
          (Execute.runPlan store.access settings before).run.run { store } =
            (.ok outcomes, session') ∧
          Gate.admits settings session'.store i = false := by
  cases hadmits : Gate.admitsScript store.access settings script { store } with
  | true => exact .inl (if_pos hadmits)
  | false =>
    refine .inr ⟨if_neg (by simp [hadmits]), ?_⟩
    rw [Gate.admitsScript] at hadmits
    cases hplan : Plan.ofScript script settings.defaultStrategy with
    | error failure =>
      rw [hplan] at hadmits
      cases hadmits
    | ok plan =>
      rw [hplan] at hadmits
      have hrefused : ¬Gate.admitsPlan store.access settings plan { store } = true :=
        ne_true_of_eq_false hadmits
      have hsome := mt Gate.admitsPlan_iff.2 hrefused
      push Not at hsome
      obtain ⟨before, i, after, outcomes, session', heq, hran, hwide⟩ := hsome
      exact ⟨plan, before, i, after, outcomes, session', rfl, heq, hran, by simpa using hwide⟩

/-- With settings that fit, the program reports what the script comes to. -/
theorem report_of_fits {settings : Settings} (h : Gate.Fits settings) (store : Store)
    (script : Script) :
    report settings store script = .ok ((script.execute store.access settings).run { store }).1 :=
  if_pos (Gate.admitsScript_of_fits h store.access script { store })

end CommandLine

end ObjectQuery
