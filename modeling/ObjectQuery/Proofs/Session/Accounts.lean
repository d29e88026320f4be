import ObjectQuery.Proofs.Lookup.Ledger
import ObjectQuery.Proofs.Session.Asking
import ObjectQuery.Proofs.Session.Keeping
import ObjectQuery.Proofs.Session.Transparency

/-!
# Accounts of a session

A session shares what has been looked up over all its scripts, while objects are added and
gain versions in between. What its state comes to can be accounted for question by question:
after every step it records the **ledger** of the session (`VersionedStep.records_takeAll`),
the questions that reached an examiner so far with the answers given at the time. So loads,
size and kept values are told by the ledger (`VersionedStep.ledger_balances`).

Answers need not be steady here. A new version may change what a question would be answered
by then, and every script may have an access of its own; what is kept stays, right or
outdated.

The ledger leaves nothing out. A step whose access gave other answers to questions that are not
in it would come to the same (`VersionedStep.take_eq_of_answers`), so that there is no way past
what is kept and counted.
-/

namespace ObjectQuery

/-- A step of a session with versions: a version is added to an object, or a step is taken
under some access. -/
inductive VersionedStep where
  | addVersion (id : Nat) (object : Value)
  | under (access : Store → Access) (step : SessionStep)

namespace VersionedStep

/-- Takes a step. A version of an object that is not stored changes nothing. -/
def take (session : Session) : VersionedStep → Session
  | .addVersion id object =>
    match session.store.addVersion id object with
    | .ok store => { session with store }
    | .error _ => session
  | .under access step => (step.take access .shared session).2

/-- Takes steps one after another. -/
def takeAll (session : Session) (steps : List VersionedStep) : Session :=
  steps.foldl take session

/-- The questions that reach an examiner in a step, with its answers. -/
def answers (session : Session) : VersionedStep → List Answered
  | .addVersion _ _ => []
  | .under access step =>
    let calls := (take session (.under access step)).lookups.calls
    (calls.drop session.lookups.calls.length).map fun call =>
      ⟨call.1, call.2, (access session.store).examine call.1 call.2⟩

/-- The questions that reach an examiner in steps one after another, with its answers. -/
def ledger (session : Session) : List VersionedStep → List Answered
  | [] => []
  | step :: rest => step.answers session ++ ledger (step.take session) rest

theorem ledger_append (session : Session) (before after : List VersionedStep) :
    ledger session (before ++ after) =
      ledger session before ++ ledger (takeAll session before) after := by
  induction before generalizing session with
  | nil => rfl
  | cons step rest ih =>
    rw [List.cons_append, ledger, ledger, ih, List.append_assoc]
    rfl

/-! ### One step -/

/-- Adding a version looks nothing up. -/
theorem lookups_addVersion (session : Session) (id : Nat) (object : Value) :
    (take session (.addVersion id object)).lookups = session.lookups := by
  rw [take]
  cases session.store.addVersion id object <;> rfl

/-- A step of a session goes on with the ledger, with the answers of the examiner of this
step. -/
theorem goesOn_under {session : Session} {recorded : List Answered}
    (h : session.lookups.Records recorded) (access : Store → Access) (step : SessionStep) :
    (take session (.under access step)).lookups.GoesOn (access session.store).examine
      recorded := by
  have hstart := h.goesOn (access session.store).examine
  cases step with
  | add uri schema type object => exact hstart
  | execute script settings =>
    have hkeeps : Keeps (fun session : Session => session.lookups.GoesOn _ recorded)
        (script.execute (access session.store) settings) :=
      (Script.looksUp_execute (access session.store).refuse settings script).keeps
        fun e path _ hl => hl.discover e path
    exact hkeeps session hstart

/-- What a step adds to the ledger are its answers. -/
theorem answers_under {session : Session} {recorded added : List Answered}
    (h : session.lookups.Records recorded) {access : Store → Access} {step : SessionStep}
    (hadded : ∀ a ∈ added, a.answer = (access session.store).examine a.entry a.path)
    (h' : (take session (.under access step)).lookups.Records (recorded ++ added)) :
    answers session (.under access step) = added := by
  have hnew : (take session (.under access step)).lookups.calls.drop
      session.lookups.calls.length = added.map Answered.question := by
    rw [h'.calls, h.calls, List.map_append, List.drop_left]
  have hsame : ∀ a ∈ added, Answered.mk a.entry a.path
      ((access session.store).examine a.entry a.path) = a := by
    intro a ha
    rw [← hadded a ha]
  rw [answers, hnew, List.map_map]
  exact (List.map_congr_left hsame).trans (List.map_id added)

/-- **One step** records what reached an examiner in it. -/
theorem records_take {session : Session} {recorded : List Answered}
    (h : session.lookups.Records recorded) (step : VersionedStep) :
    (step.take session).lookups.Records (recorded ++ step.answers session) := by
  cases step with
  | addVersion id object =>
    rw [lookups_addVersion, answers, List.append_nil]
    exact h
  | under access step =>
    obtain ⟨added, hadded, h'⟩ := goesOn_under h access step
    rw [answers_under h hadded h']
    exact h'

/-- **All steps** record the ledger of the session. -/
theorem records_takeAll {session : Session} {recorded : List Answered}
    (h : session.lookups.Records recorded) (steps : List VersionedStep) :
    (takeAll session steps).lookups.Records (recorded ++ ledger session steps) := by
  induction steps generalizing session recorded with
  | nil =>
    rw [ledger, List.append_nil]
    exact h
  | cons step rest ih =>
    rw [ledger, ← List.append_assoc]
    exact ih (records_take h step)

/-- What is kept after some steps stays in front of what is kept after more of them. -/
theorem kept_takeAll_isPrefix {session : Session} {recorded : List Answered}
    (h : session.lookups.Records recorded) (before after : List VersionedStep) :
    (takeAll session before).lookups.kept <+: (takeAll session (before ++ after)).lookups.kept := by
  have hbefore := records_takeAll h before
  have hall := records_takeAll h (before ++ after)
  rw [hbefore.kept, hall.kept, ledger_append, ← List.append_assoc,
    List.filterMap_append (l := recorded ++ ledger session before)]
  exact List.prefix_append _ _

/-- **A step depends on its access only through its answers in the ledger.** Under an access that
refuses the same targets and gives these answers it comes to the same report, and leaves the same
session. -/
theorem take_eq_of_answers {session : Session} {access access' : Store → Access}
    {step : SessionStep}
    (hrefuse : (access' session.store).refuse = (access session.store).refuse)
    (h : ∀ a ∈ answers session (.under access step),
      (access' session.store).examine a.entry a.path = a.answer) :
    step.take access' .shared session = step.take access .shared session := by
  cases step with
  | add uri schema type object => rfl
  | execute script settings =>
    obtain ⟨asked, hcalls, -, hsame⟩ :=
      (Script.looksUp_execute (access session.store).refuse settings script).asksOnRecord
        (access session.store).examine session
    -- what is asked in the step stands in the ledger with its answer
    have hnew : (take session (.under access (.execute script settings))).lookups.calls.drop
        session.lookups.calls.length = asked :=
      (congrArg (List.drop session.lookups.calls.length) hcalls).trans List.drop_left
    have hanswers : ∀ question ∈ asked, (access' session.store).examine question.1 question.2 =
        (access session.store).examine question.1 question.2 := by
      intro question hquestion
      refine h ⟨question.1, question.2, _⟩ ?_
      rw [answers, hnew]
      exact List.mem_map_of_mem hquestion
    have haccess : access' session.store =
        ⟨(access' session.store).examine, (access session.store).refuse⟩ := by
      rw [← hrefuse]
    have hrun : (script.execute (access' session.store) settings).run session =
        (script.execute (access session.store) settings).run session := by
      rw [haccess]
      exact hsame _ hanswers
    exact congrArg (fun r : Report × Session => (some r.1, r.2)) hrun

/-! ### The whole session -/

/-- **The accounts of a session balance** after every step. The loads are the questions that
reached an examiner; what is kept are its answers but for the failures, one for each key
discovered; no key is discovered twice; every load that left nothing to keep is a failure;
and what has been kept stays as it is. -/
theorem ledger_balances (store : Store) (steps : List VersionedStep) :
    let lookups := (takeAll { store } steps).lookups
    let ledger := ledger { store } steps
    let discovered := (ledger.filter Answered.succeeded).map Answered.key
    lookups.calls = ledger.map Answered.question ∧
    lookups.loads = lookups.calls.length ∧
    lookups.kept = ledger.filterMap Answered.kept? ∧
    lookups.size = discovered.toFinset.card ∧
    discovered.Nodup ∧
    lookups.loads = lookups.size + (ledger.filter fun a => !a.succeeded).length ∧
    ∀ n, (takeAll { store } (steps.take n)).lookups.kept <+: lookups.kept := by
  have hempty : Lookups.Records (Session.lookups { store }) [] := Lookups.records_empty
  have h := records_takeAll hempty steps
  rw [List.nil_append] at h
  refine ⟨h.calls, ?_, h.kept, h.size_eq, h.nodup_keys, h.loads_eq, fun n => ?_⟩
  · rw [h.loads, h.calls, List.length_map]
  · have hprefix := kept_takeAll_isPrefix hempty (steps.take n) (steps.drop n)
    rw [List.take_append_drop] at hprefix
    exact hprefix

/-- A lamp gets another name between two scripts that show it. Its old name has been kept, so
that nothing more is asked. -/
example :
    let lookups := (takeAll { store := twoLamps }
      [.under Store.access (.execute namesScript {}),
       .addVersion 1 (.object [("name", .string "hall")]),
       .under Store.access (.execute namesScript {})]).lookups
    (lookups.loads, lookups.size) = (2, 2) :=
  rfl

end VersionedStep

end ObjectQuery
