import ObjectQuery.Lookup
import ObjectQuery.Proofs.Running

/-!
# What a computation on lookups gives

What has been looked up may be large, and two runs of one computation seldom start from
the same state. What they come to is nevertheless the same as soon as both states answer
the questions asked in the same way. `Gives P x a` says so of one computation: from
**every** state that fulfils the invariant `P` the computation `x` comes to `a`, and the
state it leaves fulfils `P` again.

Everything that asks does so through `LookupM.discover`, so an invariant has to be
checked against that one function only. `AnsweredBy P examiner view entries` is this
check: on the entries given, a lookup comes to what `view` says. All that is said about
conditions, rows, columns and queries is derived from it, for two invariants:

* `Lookups.answer` reads a state as an examiner, which answers from what is kept and
  else asks. Lookups never change it (`answeredBy_answer`), so a run from *any* state
  can be described by what that state answers at its start;
* `Lookups.Faithful` says that everything kept is what the examiner answers
  (`answeredBy_faithful`). It holds when nothing is kept, and then what the examiner
  answers is all there is to a run.
-/

namespace ObjectQuery

/-- From every state that fulfils the invariant, a computation comes to the value given
and leaves a state that fulfils it again. -/
def Gives {α : Type} (P : Lookups → Prop) (x : StateM Lookups α) (a : α) : Prop :=
  ∀ l, P l → (x.run l).1 = a ∧ P (x.run l).2

namespace Gives

variable {α β : Type} {P : Lookups → Prop}

theorem pure (a : α) : Gives P (pure a) a :=
  fun _ h => ⟨rfl, h⟩

theorem bind {x : StateM Lookups α} {f : α → StateM Lookups β} {a : α} {b : β}
    (hx : Gives P x a) (hf : Gives P (f a) b) : Gives P (x >>= f) b := by
  intro l h
  obtain ⟨ha, hl⟩ := hx l h
  subst ha
  exact hf _ hl

/-- A sequence of computations that may fail gives what the sequence of their answers
gives. -/
theorem bindExcept {x : LookupM α} {f : α → LookupM β} {r : Except Failure α}
    {g : α → Except Failure β} (hx : Gives P x.run r)
    (hf : ∀ a, r = .ok a → Gives P (f a).run (g a)) : Gives P (x >>= f).run (r >>= g) := by
  change Gives P (x.run >>= ExceptT.bindCont f) (r >>= g)
  refine hx.bind ?_
  cases r with
  | ok a => exact hf a rfl
  | error e => exact Gives.pure _

/-- A computation that cannot fail, as one that may. -/
theorem lift {x : StateM Lookups α} {a : α} (hx : Gives P x a) :
    Gives P (liftM x : LookupM α).run (.ok a) := by
  intro l h
  obtain ⟨ha, hl⟩ := hx l h
  exact ⟨congrArg Except.ok ha, hl⟩

end Gives

/-! ### One lookup -/

/-- A table either answers at its head or further down. -/
theorem lookup_cons_eq_ite {α β : Type} [BEq α] [LawfulBEq α] [DecidableEq α] (key a : α) (b : β)
    (rest : List (α × β)) :
    ((key, b) :: rest).lookup a = if a = key then some b else rest.lookup a := by
  by_cases h : a = key
  · rw [if_pos h, h, List.lookup_cons_self]
  · have hb : (a == key) = false := by simpa using h
    rw [if_neg h, List.lookup_cons, hb]

/-- What is found in a table stands in it. -/
theorem mem_of_lookup {α β : Type} [BEq α] [LawfulBEq α] {xs : List (α × β)} {k : α} {v : β}
    (h : xs.lookup k = some v) : (k, v) ∈ xs := by
  obtain ⟨before, after, heq, -⟩ := List.lookup_eq_some_iff.1 h
  rw [heq]
  exact List.mem_append_right _ List.mem_cons_self

namespace Lookups

/-- How a state answers for an entry and a path: by what is kept, and else by what the
examiner answers. -/
def answer (l : Lookups) (examiner : Examiner) (e : Entry) (path : String) :
    Except Failure Found :=
  match l.get? e.id path with
  | some hit => .ok hit
  | none => examiner e path

/-- The state after a question for which nothing was kept, with what is kept from then
on. -/
def asked (l : Lookups) (e : Entry) (path : String) (kept : List ((Nat × String) × Found)) :
    Lookups :=
  { kept, loads := l.loads + 1, calls := l.calls ++ [(e, path)] }

/-- What is kept once a value has been put behind what was kept before. -/
theorem get?_asked_append (l : Lookups) (e : Entry) (path : String) (found : Found) (id : Nat)
    (other : String) :
    (l.asked e path (l.kept ++ [((e.id, path), found)])).get? id other =
      (l.get? id other).or (if (id, other) = (e.id, path) then some found else none) := by
  rw [get?, asked, List.lookup_append, lookup_cons_eq_ite, List.lookup_nil, get?]

end Lookups

namespace LookupM

variable {examiner : Examiner} {e : Entry} {path : String} {l : Lookups}

/-- A lookup of something that is kept. -/
theorem discover_hit {hit : Found} (h : l.get? e.id path = some hit) :
    (discover examiner e path).run.run l = (.ok hit, l) := by
  have hget : ((get : LookupM Lookups).run.run l) = (.ok l, l) := rfl
  rw [discover, run_bind_of_ok hget, h]
  rfl

/-- A lookup that has to ask, and is answered. -/
theorem discover_ok {found : Found} (h : l.get? e.id path = none)
    (ha : examiner e path = .ok found) :
    (discover examiner e path).run.run l =
      (.ok found, l.asked e path (l.kept ++ [((e.id, path), found)])) := by
  have hget : ((get : LookupM Lookups).run.run l) = (.ok l, l) := rfl
  have hkeep : (l.asked e path l.kept).keep e.id path found =
      (found, l.asked e path (l.kept ++ [((e.id, path), found)])) := by
    have : (l.asked e path l.kept).get? e.id path = none := h
    rw [Lookups.keep, this]
    rfl
  rw [discover, run_bind_of_ok hget, h]
  simp only [ask, ha]
  change (Except.ok ((l.asked e path l.kept).keep e.id path found).1,
    ((l.asked e path l.kept).keep e.id path found).2) = _
  rw [hkeep]

/-- A lookup that has to ask, and fails. -/
theorem discover_error {failure : Failure} (h : l.get? e.id path = none)
    (ha : examiner e path = .error failure) :
    (discover examiner e path).run.run l = (.error failure, l.asked e path l.kept) := by
  have hget : ((get : LookupM Lookups).run.run l) = (.ok l, l) := rfl
  rw [discover, run_bind_of_ok hget, h]
  simp only [ask, ha]
  rfl

/-- **What a lookup does**: it comes to what the state answers, and the state it leaves
is the same, or notes one question more, with what was kept before or one answer
behind it. -/
theorem discover_cases (examiner : Examiner) (e : Entry) (path : String) (l : Lookups) :
    (∃ hit, l.get? e.id path = some hit ∧
      (discover examiner e path).run.run l = (.ok hit, l)) ∨
    (∃ found, l.get? e.id path = none ∧ examiner e path = .ok found ∧
      (discover examiner e path).run.run l =
        (.ok found, l.asked e path (l.kept ++ [((e.id, path), found)]))) ∨
    (∃ failure, l.get? e.id path = none ∧ examiner e path = .error failure ∧
      (discover examiner e path).run.run l = (.error failure, l.asked e path l.kept)) := by
  cases h : l.get? e.id path with
  | some hit => exact .inl ⟨hit, rfl, discover_hit h⟩
  | none =>
    cases ha : examiner e path with
    | ok found => exact .inr (.inl ⟨found, rfl, rfl, discover_ok h ha⟩)
    | error failure => exact .inr (.inr ⟨failure, rfl, rfl, discover_error h ha⟩)

end LookupM

end ObjectQuery
