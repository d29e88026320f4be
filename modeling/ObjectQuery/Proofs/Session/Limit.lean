import ObjectQuery.Proofs.Matching.Limit
import ObjectQuery.Proofs.Session.Asking
import ObjectQuery.Proofs.Session.Query

/-!
# Queries with a limit

A query with a limit shows the first rows of what it shows without one
(`Execute.runQuery_limited`), and the two of its ways come to that differently. With an order
all rows are made, sorted and cut. Without an order matching stops, so that nothing is asked
about the candidates behind the last row (`Execute.StopsBehind`): the run is the one over the
candidates up to there, in its result and in the state it leaves.

As for queries without a limit, nothing is needed of what has been looked up before. Both
queries start from the same state, and what it answers is the view they share.
-/

namespace ObjectQuery

/-- A query without its limit. -/
def QueryInstruction.unlimited (q : QueryInstruction) : QueryInstruction :=
  { q with limit := 0 }

/-- Matching puts questions about its entries only. -/
theorem Matching.calls_run (examiner : Examiner) (r : Matching.Request) (entries : List Entry)
    (l : Lookups) :
    ∃ asked, ((Matching.run examiner r entries).run l).2.calls = l.calls ++ asked ∧
      ∀ question ∈ asked, question.1 ∈ entries := by
  obtain ⟨asked, hcalls, habout, -⟩ :=
    (Matching.looksUp_collect r [] entries).asksOnRecord examiner l
  exact ⟨asked, hcalls, habout⟩

/-- Lookups in a session go on from what has been looked up in it. -/
theorem SessionM.run_onLookups {α : Type} {x : LookupM α} {session : Session}
    {r : Except Failure α} {l' : Lookups} (h : x.run.run session.lookups = (r, l')) :
    (ExceptT.mk (onLookups x.run)).run.run session = (r, { session with lookups := l' }) := by
  have hrun : (ExceptT.mk (onLookups x.run)).run.run session =
      ((x.run.run session.lookups).1,
        { session with lookups := (x.run.run session.lookups).2 }) := rfl
  rw [hrun, h]

namespace Execute

/-! ### The first rows -/

section Evaluation

variable {P : Lookups → Prop} {examiner view : Examiner} {entries : List Entry}
  {q : QueryInstruction}

theorem resultOf_of_unordered (settings : Settings) (hsort : q.sort = []) :
    resultOf examiner settings q entries = liftM (runUnordered examiner q entries) :=
  if_pos (by rw [hsort, List.isEmpty_nil])

theorem resultOf_of_ordered (settings : Settings) (hsort : q.sort ≠ []) :
    resultOf examiner settings q entries = runOrdered examiner settings q entries :=
  if_neg (by rwa [List.isEmpty_iff])

/-- What an unordered query comes to, and the state it leaves, are those of matching. -/
theorem run_resultOf_unordered (settings : Settings) (hsort : q.sort = []) (l : Lookups) :
    (resultOf examiner settings q entries).run.run l =
      (.ok ⟨q.columns, ((Matching.run examiner (requestOf q) entries).run l).1⟩,
        ((Matching.run examiner (requestOf q) entries).run l).2) := by
  rw [resultOf_of_unordered settings hsort]
  rfl

theorem gives_limited_unordered (h : AnsweredBy P examiner view entries) (hn : Numbered entries)
    (settings : Settings) (hsort : q.sort = []) (hlimit : 0 < q.limit.toInt) :
    let rows := entries.filterMap (Matching.rowOf view (requestOf q))
    Gives P (resultOf examiner settings q.unlimited entries).run (.ok ⟨q.columns, rows⟩) ∧
    Gives P (resultOf examiner settings q entries).run
      (.ok ⟨q.columns, rows.take q.limit.toInt.toNat⟩) := by
  have hrow : ∀ e row, Matching.rowOf view (requestOf q) e = some row → row.entry = e :=
    fun _ _ => Matching.entry_of_rowOf
  -- the limit is all that the two requests differ in
  have hunlimited : Gives P (runUnordered examiner q.unlimited entries)
      ⟨q.columns, Matching.collected (Matching.rowOf view (requestOf q)) none [] entries⟩ :=
    gives_runUnordered h q.unlimited
  have hlimited := gives_runUnordered h q
  rw [Matching.collected_none hrow hn (by simp)] at hunlimited
  rw [Matching.limitOf, if_pos hlimit, Matching.collected_some hrow _ hn] at hlimited
  refine ⟨?_, ?_⟩
  · rw [resultOf_of_unordered (q := q.unlimited) settings hsort]
    exact hunlimited.lift
  · rw [resultOf_of_unordered settings hsort]
    exact hlimited.lift

theorem exists_gives_limited_ordered (h : AnsweredBy P examiner view entries)
    (settings : Settings) (hsort : q.sort ≠ []) (hlimit : 0 < q.limit.toInt) :
    ∃ rows,
      Gives P (resultOf examiner settings q.unlimited entries).run
        (.ok ⟨orderedColumns q, rows⟩) ∧
      Gives P (resultOf examiner settings q entries).run
        (.ok ⟨orderedColumns q, rows.take q.limit.toInt.toNat⟩) := by
  obtain ⟨keys, hpositions⟩ := exists_positions q
  have hunlimited := gives_runOrdered h settings q.unlimited hpositions
  have hlimited := gives_runOrdered h settings q hpositions
  rw [Matching.limitOf, if_pos hlimit] at hlimited
  refine ⟨orderedRows view settings.nullsFirst q keys entries, ?_, ?_⟩
  · rw [resultOf_of_ordered (q := q.unlimited) settings hsort]
    exact hunlimited
  · rw [resultOf_of_ordered settings hsort]
    exact hlimited

/-- **A limit keeps the first rows** of what a query gives, with an order or without one. -/
theorem exists_gives_limited (h : AnsweredBy P examiner view entries) (hn : Numbered entries)
    (settings : Settings) (hlimit : 0 < q.limit.toInt) :
    ∃ columns rows,
      Gives P (resultOf examiner settings q.unlimited entries).run (.ok ⟨columns, rows⟩) ∧
      Gives P (resultOf examiner settings q entries).run
        (.ok ⟨columns, rows.take q.limit.toInt.toNat⟩) ∧
      (q.sort = [] → rows = entries.filterMap (Matching.rowOf view (requestOf q))) := by
  by_cases hsort : q.sort = []
  · obtain ⟨hunlimited, hlimited⟩ := gives_limited_unordered h hn settings hsort hlimit
    exact ⟨_, _, hunlimited, hlimited, fun _ => rfl⟩
  · obtain ⟨rows, hunlimited, hlimited⟩ := exists_gives_limited_ordered h settings hsort hlimit
    exact ⟨_, rows, hunlimited, hlimited, fun hnone => absurd hnone hsort⟩

end Evaluation

/-! ### Where matching stops -/

/-- A query asks nothing about its candidates behind an entry: it comes to what it would come
to without them, in its result and in the state it leaves, and all that reaches the examiner
is about the others. -/
structure StopsBehind (a : Access) (settings : Settings) (q : QueryInstruction)
    (session : Session) (last : Entry) : Prop where
  same :
    let candidates := session.store.get q.target
    (resultOf a.examine settings q candidates).run.run session.lookups =
      (resultOf a.examine settings q (candidates.filter (·.id ≤ last.id))).run.run
        session.lookups
  asked : ∃ asked,
    ((runQuery a settings q).run.run session).2.lookups.calls =
      session.lookups.calls ++ asked ∧
    ∀ question ∈ asked, question.1 ∈ session.store.get q.target ∧ question.1.id ≤ last.id

/-- What has been looked up behind a query is what making its result leaves. -/
theorem lookups_runQuery (a : Access) (settings : Settings) (q : QueryInstruction)
    (session : Session) :
    ((runQuery a settings q).run.run session).2.lookups =
      ((resultOf a.examine settings q (session.store.get q.target)).run.run
        session.lookups).2 := by
  rcases hran : (resultOf a.examine settings q (session.store.get q.target)).run.run
    session.lookups with ⟨result, l'⟩
  have hget : (get : SessionM Session).run.run session = (.ok session, session) := rfl
  have hresult := SessionM.run_onLookups hran
  rw [runQuery, run_bind_of_ok hget]
  cases result with
  | ok result => rw [run_bind_of_ok hresult]; rfl
  | error failure => rw [run_bind_of_error hresult]

/-- **A query without an order stops behind the row that takes the last place.** -/
theorem stopsBehind {session : Session} (hs : session.store.Reachable) (a : Access)
    (settings : Settings) {q : QueryInstruction} (hsort : q.sort = [])
    (hlimit : 0 < q.limit.toInt) {last : ResultRow}
    (hlast : ((session.store.get q.target).filterMap (Matching.rowOf
      (session.lookups.answer a.examine) (requestOf q)))[q.limit.toInt.toNat - 1]? = some last) :
    StopsBehind a settings q session last.entry := by
  have hn := hs.wellNumbered.numbered_get q.target
  have hview := Lookups.answeredBy_answer hn a.examine session.lookups
  have hpos : 1 ≤ q.limit.toInt.toNat := by omega
  have hroom : (requestOf q).limit = some (q.limit.toInt.toNat - 1 + 1) := by
    rw [Nat.sub_add_cancel hpos]
    exact if_pos hlimit
  have hrun := Matching.run_upTo hview hn hroom hlast (l := session.lookups) fun _ _ _ => rfl
  refine ⟨?_, ?_⟩
  · simp only [run_resultOf_unordered settings hsort, hrun]
  · obtain ⟨asked, hcalls, hasked⟩ := Matching.calls_run a.examine (requestOf q)
      ((session.store.get q.target).filter (·.id ≤ last.entry.id)) session.lookups
    refine ⟨asked, ?_, fun question hq => by simpa using hasked question hq⟩
    rw [lookups_runQuery, run_resultOf_unordered settings hsort, hrun]
    exact hcalls

/-- **A limit keeps the first rows of what a query shows without it**, and all of them if
there are fewer, from every session whose store is reachable, whatever has been looked up in
it and whichever lookups fail. Without an order nothing is asked about candidates behind the
row that takes the last place. -/
theorem runQuery_limited {session : Session} (hs : session.store.Reachable) (a : Access)
    (settings : Settings) {q : QueryInstruction} (hlimit : 0 < q.limit.toInt) :
    ∃ limited unlimited : ResultSet,
      ((runQuery a settings q).run.run session).1 = .ok (.queried q.text limited) ∧
      ((runQuery a settings q.unlimited).run.run session).1 =
        .ok (.queried q.unlimited.text unlimited) ∧
      limited.columns = unlimited.columns ∧
      limited.rows = unlimited.rows.take q.limit.toInt.toNat ∧
      (q.sort = [] → ∀ last, unlimited.rows[q.limit.toInt.toNat - 1]? = some last →
        StopsBehind a settings q session last.entry) := by
  obtain ⟨s, l⟩ := session
  have hn := hs.wellNumbered.numbered_get q.target
  have hview := Lookups.answeredBy_answer hn a.examine l
  obtain ⟨columns, rows, hunlimited, hlimited, hrows⟩ :=
    exists_gives_limited hview hn settings hlimit
  obtain ⟨_, -, hrun⟩ := brings_runQuery hlimited l fun _ _ _ => rfl
  obtain ⟨_, -, hrun'⟩ := brings_runQuery (q := q.unlimited) hunlimited l fun _ _ _ => rfl
  refine ⟨_, _, congrArg Prod.fst hrun, congrArg Prod.fst hrun', rfl, rfl, ?_⟩
  intro hsort last hlast
  rw [hrows hsort] at hlast
  exact stopsBehind hs a settings hsort hlimit hlast

/-! ### The first lamp -/

/-- The name of one thing in a house that has one. -/
def firstNamed : QueryInstruction where
  target := house
  condition := [⟨.and, .assertion "name" (.predicate .isPresent)⟩]
  limit := 1
  columns := [⟨"name", "Name"⟩]

theorem runQuery_limited_firstNamed :
    (indexedLamps.store.Reachable ∧ 0 < firstNamed.limit.toInt) ∧
    ∃ limited unlimited : ResultSet,
      ((runQuery twoLamps.access {} firstNamed).run.run indexedLamps).1 =
        .ok (.queried firstNamed.text limited) ∧
      ((runQuery twoLamps.access {} firstNamed.unlimited).run.run indexedLamps).1 =
        .ok (.queried firstNamed.unlimited.text unlimited) ∧
      limited.columns = unlimited.columns ∧
      limited.rows = unlimited.rows.take firstNamed.limit.toInt.toNat ∧
      (firstNamed.sort = [] → ∀ last,
        unlimited.rows[firstNamed.limit.toInt.toNat - 1]? = some last →
          StopsBehind twoLamps.access {} firstNamed indexedLamps last.entry) :=
  have hreachable : indexedLamps.store.Reachable := reachable_twoLamps.refresh .initial house
  ⟨⟨hreachable, by decide⟩, runQuery_limited hreachable twoLamps.access {} (by decide)⟩

/-- The second lamp has a name as well, and is not asked for it. -/
example :
    ((runQuery twoLamps.access {} firstNamed).run.run indexedLamps).2.lookups.calls.map
      (fun question => (question.1.uri, question.2)) = [("lamps/1", "name")] :=
  rfl

end Execute

end ObjectQuery
