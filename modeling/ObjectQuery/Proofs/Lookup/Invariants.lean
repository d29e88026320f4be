import ObjectQuery.Proofs.Lookup.Gives
import ObjectQuery.Proofs.Store.Numbered

/-!
# Invariants of lookups

Two invariants under which lookups on numbered entries give an answer known in advance.

The **answers** of a state are never changed by a lookup: a value is kept under the
number of the entry and the path it was found by, so another question is answered as
before, and the same question is answered by what was just found. This holds of every
state, whatever is kept in it (`answeredBy_answer`), and also if entries share a number, as
long as the examiner does not tell them apart (`answeredBy_of_answersByNumber`).

A state is **faithful** when everything kept is what the examiner answers for a stored
entry of that number. Lookups keep it so (`answeredBy_faithful`), since what fails is not
kept, and a store may grow under it (`Lookups.Faithful.grow`), since a new entry gets a
number under which nothing is kept.
-/

namespace ObjectQuery

/-- Under an invariant, every lookup on the entries given comes to what a view says. -/
def AnsweredBy (P : Lookups → Prop) (examiner view : Examiner) (entries : List Entry) : Prop :=
  ∀ e ∈ entries, ∀ path, Gives P (LookupM.discover examiner e path).run (view e path)

/-- The examiner tells entries apart by their numbers alone. -/
def AnswersByNumber (examiner : Examiner) (entries : List Entry) : Prop :=
  ∀ e ∈ entries, ∀ e' ∈ entries, e.id = e'.id → examiner e = examiner e'

namespace Lookups

variable {examiner : Examiner} {l : Lookups}

/-! ### The answers of a state -/

theorem answer_of_some {e : Entry} {path : String} {hit : Found}
    (h : l.get? e.id path = some hit) : l.answer examiner e path = .ok hit := by
  rw [answer, h]

theorem answer_of_none {e : Entry} {path : String} (h : l.get? e.id path = none) :
    l.answer examiner e path = examiner e path := by
  rw [answer, h]

/-- A lookup comes to what the state answers. -/
theorem fst_discover (examiner : Examiner) (e : Entry) (path : String) (l : Lookups) :
    ((LookupM.discover examiner e path).run.run l).1 = l.answer examiner e path := by
  rcases LookupM.discover_cases examiner e path l with
    ⟨hit, hget, hrun⟩ | ⟨found, hget, ha, hrun⟩ | ⟨failure, hget, ha, hrun⟩
  · rw [hrun, answer_of_some hget]
  · rw [hrun, answer_of_none hget, ha]
  · rw [hrun, answer_of_none hget, ha]

/-- **A lookup does not change what a state answers**, be it for an entry that the examiner
does not tell from the one looked up on or for one of another number. -/
theorem answer_discover {e e' : Entry} (h : e'.id = e.id → examiner e' = examiner e)
    (path path' : String) (l : Lookups) :
    ((LookupM.discover examiner e path).run.run l).2.answer examiner e' path' =
      l.answer examiner e' path' := by
  rcases LookupM.discover_cases examiner e path l with
    ⟨hit, hget, hrun⟩ | ⟨found, hget, ha, hrun⟩ | ⟨failure, hget, ha, hrun⟩
  · rw [hrun]
  · rw [hrun]
    simp only [answer, get?_asked_append]
    by_cases hkey : (e'.id, path') = (e.id, path)
    · -- the question that was just answered
      obtain ⟨hid, rfl⟩ := Prod.mk.inj hkey
      rw [if_pos hkey, hid, hget, h hid, ha, Option.none_or]
    · rw [if_neg hkey, Option.or_none]
  · -- a failure is not kept, so nothing answers differently
    rw [hrun]
    rfl

/-- The answers of a state are an invariant of the lookups on entries that the examiner tells
apart by their numbers alone. -/
theorem answeredBy_of_answersByNumber {entries : List Entry}
    (h : AnswersByNumber examiner entries) (l : Lookups) :
    AnsweredBy
      (fun l' => ∀ e ∈ entries, ∀ path, l'.answer examiner e path = l.answer examiner e path)
      examiner (l.answer examiner) entries := by
  intro e he path l' hl'
  refine ⟨?_, fun e' he' path' => ?_⟩
  · exact (fst_discover examiner e path l').trans (hl' e he path)
  · exact (answer_discover (h e' he' e he) path path' l').trans (hl' e' he' path')

/-- The answers of a state are an invariant of the lookups on numbered entries. -/
theorem answeredBy_answer {entries : List Entry} (hn : Numbered entries) (examiner : Examiner)
    (l : Lookups) :
    AnsweredBy
      (fun l' => ∀ e ∈ entries, ∀ path, l'.answer examiner e path = l.answer examiner e path)
      examiner (l.answer examiner) entries :=
  answeredBy_of_answersByNumber
    (fun _ he _ he' hid => congrArg examiner (hn.eq_of_id_eq he he' hid)) l

/-! ### Faithful states -/

/-- Everything that is kept is what the examiner answers for the entry of that number. -/
def Faithful (l : Lookups) (examiner : Examiner) (entries : List Entry) : Prop :=
  ∀ id path found, ((id, path), found) ∈ l.kept →
    ∃ e ∈ entries, e.id = id ∧ examiner e path = .ok found

theorem faithful_empty (examiner : Examiner) (entries : List Entry) :
    Faithful {} examiner entries := by
  intro id path found h
  simp at h

/-- What is found under a key is kept under it. -/
theorem mem_of_get? {id : Nat} {path : String} {found : Found}
    (h : l.get? id path = some found) : ((id, path), found) ∈ l.kept :=
  mem_of_lookup h

/-- A faithful state answers as the examiner does. -/
theorem Faithful.answer_eq {entries : List Entry} (hl : l.Faithful examiner entries)
    (hn : Numbered entries) {e : Entry} (he : e ∈ entries) (path : String) :
    l.answer examiner e path = examiner e path := by
  cases hget : l.get? e.id path with
  | none => exact answer_of_none hget
  | some hit =>
    obtain ⟨e', he', hid, ha⟩ := hl e.id path hit (mem_of_get? hget)
    rw [answer_of_some hget, ← ha, hn.eq_of_id_eq he' he hid]

/-- **A lookup keeps a state faithful**: what it adds to what is kept is what the examiner
answered. -/
theorem Faithful.discover {entries : List Entry} (hl : l.Faithful examiner entries) {e : Entry}
    (he : e ∈ entries) (path : String) :
    ((LookupM.discover examiner e path).run.run l).2.Faithful examiner entries := by
  rcases LookupM.discover_cases examiner e path l with
    ⟨hit, hget, hrun⟩ | ⟨found, hget, ha, hrun⟩ | ⟨failure, hget, ha, hrun⟩
  · rw [hrun]
    exact hl
  · rw [hrun]
    intro id path' found' hmem
    rcases List.mem_append.1 hmem with hmem | hmem
    · exact hl id path' found' hmem
    · obtain ⟨hkey, rfl⟩ := Prod.mk.inj (List.mem_singleton.1 hmem)
      obtain ⟨rfl, rfl⟩ := Prod.mk.inj hkey
      exact ⟨e, he, rfl, ha⟩
  · rw [hrun]
    exact hl

/-- Being faithful is an invariant of the lookups on numbered entries. -/
theorem answeredBy_faithful {entries : List Entry} (hn : Numbered entries)
    (examiner : Examiner) :
    AnsweredBy (fun l => l.Faithful examiner entries) examiner examiner entries := by
  intro e he path l hl
  exact ⟨(fst_discover examiner e path l).trans (hl.answer_eq hn he path), hl.discover he path⟩

/-! ### Questions one after another -/

/-- The state that questions leave when they are asked one after another. -/
def after (l : Lookups) (examiner : Examiner) (questions : List (Entry × String)) : Lookups :=
  questions.foldl (fun l q => ((LookupM.discover examiner q.1 q.2).run.run l).2) l

/-- **One question** is answered as the state answers, and left behind. -/
theorem run_discover (examiner : Examiner) (e : Entry) (path : String) (l : Lookups) :
    (LookupM.discover examiner e path).run.run l =
      (l.answer examiner e path, l.after examiner [(e, path)]) := by
  rw [← fst_discover]
  rfl

/-- **At every point between questions** about numbered entries a state stays faithful. -/
theorem Faithful.after {entries : List Entry} (hl : l.Faithful examiner entries)
    {questions : List (Entry × String)} (hquestions : ∀ q ∈ questions, q.1 ∈ entries) :
    (l.after examiner questions).Faithful examiner entries := by
  induction questions generalizing l with
  | nil => exact hl
  | cons q rest ih =>
    exact ih (hl.discover (hquestions q List.mem_cons_self) q.2) fun q' hq' =>
      hquestions q' (List.mem_cons_of_mem _ hq')

/-- A state is reached from another by questions about entries alone. -/
def Reached (examiner : Examiner) (entries : List Entry) (l l' : Lookups) : Prop :=
  ∃ questions, (∀ q ∈ questions, q.1 ∈ entries) ∧ l' = l.after examiner questions

/-- Being reached from a faithful state is an invariant of the lookups on numbered
entries. -/
theorem answeredBy_reached {entries : List Entry} (hn : Numbered entries)
    (hl : l.Faithful examiner entries) :
    AnsweredBy (Reached examiner entries l) examiner examiner entries := by
  rintro e he path l' ⟨questions, hquestions, rfl⟩
  have hanswer := (hl.after hquestions).answer_eq hn he path
  refine ⟨(fst_discover examiner e path _).trans hanswer, questions ++ [(e, path)], ?_, ?_⟩
  · intro q hq
    rcases List.mem_append.1 hq with hq | hq
    · exact hquestions q hq
    · rw [List.mem_singleton.1 hq]
      exact he
  · rw [after, after, List.foldl_append]
    rfl

/-! ### Growing -/

/-- A state stays faithful when entries are added for which, and for the others as
before, the examiner has its answers. -/
theorem Faithful.grow {examiner' : Examiner} {entries entries' : List Entry}
    (hl : l.Faithful examiner entries) (hsub : ∀ e ∈ entries, e ∈ entries')
    (hsame : ∀ e ∈ entries, ∀ path, examiner' e path = examiner e path) :
    l.Faithful examiner' entries' := by
  intro id path found hmem
  obtain ⟨e, he, hid, ha⟩ := hl id path found hmem
  exact ⟨e, hsub e he, hid, (hsame e he path).trans ha⟩

end Lookups

/-- An invariant answers on fewer entries as well. -/
theorem AnsweredBy.mono {P : Lookups → Prop} {examiner view : Examiner}
    {entries entries' : List Entry} (h : AnsweredBy P examiner view entries)
    (hsub : ∀ e ∈ entries', e ∈ entries) : AnsweredBy P examiner view entries' :=
  fun e he => h e (hsub e he)

end ObjectQuery
