import ObjectQuery.Proofs.Session.Run

/-!
# Sharing what has been looked up

A session goes on over many scripts, with objects added in between. What one script has
looked up may be **shared** with those behind it, or every script may start **fresh**.
This never shows in a report (`SessionStep.reports_transparent`), as long as the answers
for a stored entry stay what they are while the store only gains objects (`Steady`), as
those of a store itself do (`Store.steady_access`).

The proof runs a session in two ways side by side. They are `Alike`: they have one store,
and what each has looked up is faithful to it. A script comes to the same from both and
leaves them alike (`exists_execute`); adding an object leaves them alike since nothing is
kept under the number that is new.
-/

namespace ObjectQuery

/-! ### Steady answers -/

/-- The answers for a stored entry stay what they are while objects are added and entries
indexed. -/
def Steady (access : Store → Access) : Prop :=
  ∀ s s' : Store, s.objects <+: s'.objects →
    ∀ e ∈ s.entries, ∀ path, (access s').examine e path = (access s).examine e path

/-- The answers of a store are steady. -/
theorem Store.steady_access : Steady Store.access := by
  intro s s' hprefix e he path
  change s'.examine e path = s.examine e path
  rw [examine, examine, versions, versions, find?_of_isPrefix hprefix he]

/-! ### Steps -/

/-- A step of a session: an object is added, or a script is run under some settings. -/
inductive SessionStep where
  | add (uri schema type : String) (object : Value)
  | execute (script : Script) (settings : Settings)

/-- Whether a script finds what others have looked up. -/
inductive Sharing where
  | shared
  | fresh

/-- What has been looked up when a script starts. -/
def Sharing.start : Sharing → Lookups → Lookups
  | .shared, l => l
  | .fresh, _ => {}

namespace SessionStep

/-- Takes a step; running a script gives its report. -/
def take (access : Store → Access) (sharing : Sharing) (session : Session) :
    SessionStep → Option Report × Session
  | .add uri schema type object =>
    (none, { session with store := session.store.add uri schema type object })
  | .execute script settings =>
    let start := { session with lookups := sharing.start session.lookups }
    let (report, session) := (script.execute (access session.store) settings).run start
    (some report, session)

/-- Takes steps one after another, and gives what each of them gives. -/
def takeAll (access : Store → Access) (sharing : Sharing) (session : Session) :
    List SessionStep → List (Option Report) × Session
  | [] => ([], session)
  | step :: rest =>
    let (report?, session) := take access sharing session step
    let (reports, session) := takeAll access sharing session rest
    (report? :: reports, session)

end SessionStep

/-! ### What a script comes to -/

/-- **A script comes to the same report from all faithful lookups**, and leaves faithful
lookups; it adds no objects. -/
theorem Script.exists_execute {s : Store} (h : s.WellNumbered) (a : Access)
    (settings : Settings) (script : Script) :
    ∃ report s', s'.WellNumbered ∧ s'.objects = s.objects ∧
      ∀ l : Lookups, l.Faithful a.examine s.entries → ∃ l' : Lookups,
        l'.Faithful a.examine s.entries ∧
        (script.execute a settings).run ⟨s, l⟩ = (report, ⟨s', l'⟩) := by
  cases hplan : Plan.ofScript script settings.defaultStrategy with
  | error failure =>
    refine ⟨.ofFailure failure, s, h, rfl, fun l hl => ⟨l, hl, ?_⟩⟩
    rw [Script.execute, hplan]
    rfl
  | ok plan =>
    obtain ⟨rs, s', hbrings, hruns⟩ := Execute.exists_runsTo h
      (Lookups.answeredBy_faithful h.numbered a.examine) settings plan
    refine ⟨Report.ofRun rs, s', hruns.wellNumbered h, hruns.objects_eq, fun l hl => ?_⟩
    obtain ⟨l', hl', hrun⟩ := hbrings l hl
    exact ⟨l', hl', Script.execute_run hplan hrun⟩

/-! ### Two ways side by side -/

/-- What has been looked up in a session is faithful to its store. -/
def Session.Faithful (access : Store → Access) (session : Session) : Prop :=
  session.lookups.Faithful (access session.store).examine session.store.entries

/-- Two sessions are alike: they have one store, and what each of them has looked up is
faithful to it. -/
structure Alike (access : Store → Access) (session session' : Session) : Prop where
  store : session.store = session'.store
  numbered : session.store.WellNumbered
  left : session.Faithful access
  right : session'.Faithful access

section Sides

variable {access : Store → Access}

/-- Lookups stay faithful while a store only gains objects. -/
theorem Steady.faithful (hsteady : Steady access) {s s' : Store}
    (hobjects : s.objects <+: s'.objects) {l : Lookups}
    (hl : l.Faithful (access s).examine s.entries) : l.Faithful (access s').examine s'.entries :=
  hl.grow (fun _ he => (hobjects.map _).subset he) (hsteady s s' hobjects)

/-- Scripts start with faithful lookups, shared or fresh. -/
theorem Sharing.faithful_start (sharing : Sharing) {l : Lookups} {examiner : Examiner}
    {entries : List Entry} (hl : l.Faithful examiner entries) :
    (sharing.start l).Faithful examiner entries := by
  cases sharing with
  | shared => exact hl
  | fresh => exact Lookups.faithful_empty examiner entries

/-- **One step leaves two sessions alike**, and gives the same in both, whichever of them
shares what has been looked up. -/
theorem Alike.take (hsteady : Steady access) {session session' : Session}
    (h : Alike access session session') (sharing sharing' : Sharing) (step : SessionStep) :
    (step.take access sharing session).1 = (step.take access sharing' session').1 ∧
      Alike access (step.take access sharing session).2 (step.take access sharing' session').2 := by
  obtain ⟨s, l⟩ := session
  obtain ⟨s', l'⟩ := session'
  obtain ⟨hstore, hs, hl, hl'⟩ := h
  change s = s' at hstore
  subst hstore
  cases step with
  | add uri schema type object =>
    have hobjects : s.objects <+: (s.add uri schema type object).objects := ⟨_, rfl⟩
    exact ⟨rfl, rfl, hs.add uri schema type object, hsteady.faithful hobjects hl,
      hsteady.faithful hobjects hl'⟩
  | execute script settings =>
    obtain ⟨report, s', hs', hobjects, hrun⟩ := script.exists_execute hs (access s) settings
    -- one report and one store for all faithful lookups, those of either session included
    obtain ⟨m, hm, hleft⟩ := hrun _ (sharing.faithful_start hl)
    obtain ⟨m', hm', hright⟩ := hrun _ (sharing'.faithful_start hl')
    have htake : SessionStep.take access sharing ⟨s, l⟩ (.execute script settings) =
        (some report, ⟨s', m⟩) := by
      simp only [SessionStep.take, hleft]
    have htake' : SessionStep.take access sharing' ⟨s, l'⟩ (.execute script settings) =
        (some report, ⟨s', m'⟩) := by
      simp only [SessionStep.take, hright]
    have hprefix : s.objects <+: s'.objects := ⟨[], by rw [List.append_nil, hobjects]⟩
    rw [htake, htake']
    exact ⟨rfl, rfl, hs', hsteady.faithful hprefix hm, hsteady.faithful hprefix hm'⟩

/-- All steps leave two sessions alike, and give the same in both. -/
theorem Alike.takeAll (hsteady : Steady access) {session session' : Session}
    (h : Alike access session session') (sharing sharing' : Sharing) (steps : List SessionStep) :
    (SessionStep.takeAll access sharing session steps).1 =
        (SessionStep.takeAll access sharing' session' steps).1 ∧
      Alike access (SessionStep.takeAll access sharing session steps).2
        (SessionStep.takeAll access sharing' session' steps).2 := by
  induction steps generalizing session session' with
  | nil => exact ⟨rfl, h⟩
  | cons step rest ih =>
    obtain ⟨hreport, hstep⟩ := h.take hsteady sharing sharing' step
    obtain ⟨hreports, hrest⟩ := ih hstep
    refine ⟨?_, hrest⟩
    simp only [SessionStep.takeAll, hreport, hreports]

end Sides

/-- While a plan runs in a session, what has been looked up is faithful after each of the
questions that are asked. -/
def Session.StaysFaithful (session : Session) (a : Access) (settings : Settings)
    (plan : Plan) : Prop :=
  ∃ questions : List (Entry × String),
    ((Execute.runPlan a settings plan).run.run session).2.lookups =
        session.lookups.after a.examine questions ∧
    ∀ n, (session.lookups.after a.examine (questions.take n)).Faithful a.examine
      session.store.entries

/-- **A run keeps what has been looked up faithful**, since it asks questions about stored
entries only. -/
theorem Session.Faithful.staysFaithful {access : Store → Access} {session : Session}
    (h : session.Faithful access) (hs : session.store.WellNumbered) (settings : Settings)
    (plan : Plan) : session.StaysFaithful (access session.store) settings plan := by
  obtain ⟨s, l⟩ := session
  have hstored : l.Faithful (access s).examine s.entries := h
  obtain ⟨_, s', hbrings, -⟩ := Execute.exists_runsTo hs
    (Lookups.answeredBy_reached hs.numbered hstored) settings plan
  obtain ⟨l', ⟨questions, hquestions, hafter⟩, hrun⟩ := hbrings l ⟨[], by simp, rfl⟩
  refine ⟨questions, ?_, fun n => hstored.after fun q hq => ?_⟩
  · rw [hrun]
    exact hafter
  · exact hquestions q (List.mem_of_mem_take hq)

/-- **Sharing what has been looked up never shows in a report.** Over every session of
added objects and scripts, each script has the same report whether it finds what others
have looked up or starts fresh. Everything kept is what the examiner answers by then, at
the end of every session and at every point of any run there. -/
theorem SessionStep.reports_transparent {access : Store → Access} (hsteady : Steady access)
    {store : Store} (hs : store.Reachable) (steps : List SessionStep) :
    (takeAll access .shared { store } steps).1 = (takeAll access .fresh { store } steps).1 ∧
    (takeAll access .shared { store } steps).2.Faithful access ∧
    ∀ settings plan,
      let session := (takeAll access .shared { store } steps).2
      session.StaysFaithful (access session.store) settings plan := by
  have hempty : Session.Faithful access { store } := Lookups.faithful_empty _ _
  have hstart : Alike access { store } { store } := ⟨rfl, hs.wellNumbered, hempty, hempty⟩
  obtain ⟨hreports, hend⟩ := hstart.takeAll hsteady .shared .fresh steps
  exact ⟨hreports, hend.left, fun settings plan =>
    hend.left.staysFaithful hend.numbered settings plan⟩

/-! ### A lamp is added -/

/-- The names of two lamps are asked for before and after a third lamp is added. -/
def lampSteps : List SessionStep :=
  [.execute namesScript {},
   .add "lamps/3" "house" "Lamp" (.object [("name", .string "floor")]),
   .execute namesScript {}]

theorem SessionStep.reports_transparent_lampSteps :
    (Steady Store.access ∧ twoLamps.Reachable) ∧
    (takeAll Store.access .shared { store := twoLamps } lampSteps).1 =
        (takeAll Store.access .fresh { store := twoLamps } lampSteps).1 ∧
    (takeAll Store.access .shared { store := twoLamps } lampSteps).2.Faithful Store.access ∧
    ∀ settings plan,
      let session := (takeAll Store.access .shared { store := twoLamps } lampSteps).2
      session.StaysFaithful session.store.access settings plan :=
  ⟨⟨Store.steady_access, reachable_twoLamps⟩,
    reports_transparent Store.steady_access reachable_twoLamps lampSteps⟩

end ObjectQuery
