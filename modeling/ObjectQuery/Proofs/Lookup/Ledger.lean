import Mathlib.Data.Finset.Card
import ObjectQuery.Proofs.Lookup.Gives

/-!
# The ledger of lookups

Put side by side, the questions that reached an examiner and the answers it gave are a
**ledger**. What has been looked up is no more than this: the state counts the entries of the
ledger, and keeps its answers but for the failures, each under a key of its own
(`Lookups.Records`). Everything that is counted can be read off the ledger
(`Lookups.Records.size_eq`, `Lookups.Records.loads_eq`), and a lookup goes on with it
(`Lookups.GoesOn.discover`).
-/

namespace ObjectQuery

/-- A question that reached an examiner, and the answer it gave. -/
structure Answered where
  entry : Entry
  path : String
  answer : Except Failure Found

namespace Answered

/-- The question. -/
def question (a : Answered) : Entry × String :=
  (a.entry, a.path)

/-- What an answer to the question is kept under. -/
def key (a : Answered) : Nat × String :=
  (a.entry.id, a.path)

/-- Whether something was discovered. -/
def succeeded (a : Answered) : Bool :=
  a.answer.isOk

/-- What is kept of the answer: nothing if it is a failure. -/
def kept? (a : Answered) : Option ((Nat × String) × Found) :=
  a.answer.toOption.map (a.key, ·)

/-- The keys of what is kept are those of the answers that are no failures. -/
theorem map_fst_filterMap_kept? (ledger : List Answered) :
    (ledger.filterMap kept?).map Prod.fst = (ledger.filter succeeded).map key := by
  induction ledger with
  | nil => rfl
  | cons a rest ih =>
    obtain ⟨entry, path, answer⟩ := a
    cases answer with
    | error failure => exact ih
    | ok found => exact congrArg (List.cons (entry.id, path)) ih

end Answered

namespace Lookups

variable {examiner : Examiner} {l : Lookups} {ledger : List Answered}

/-- Under what nothing is found, nothing is kept. -/
theorem not_mem_keys_of_get? {id : Nat} {path : String} (h : l.get? id path = none) :
    (id, path) ∉ l.kept.map Prod.fst := by
  intro hmem
  obtain ⟨kept, hkept, hkey⟩ := List.mem_map.1 hmem
  have hne : (id, path) ≠ kept.1 := by simpa using List.lookup_eq_none_iff.1 h kept hkept
  exact hne hkey.symm

/-- The state records a ledger: its questions, their number, and the answers that are no
failures, with no key twice. -/
structure Records (l : Lookups) (ledger : List Answered) : Prop where
  calls : l.calls = ledger.map Answered.question
  loads : l.loads = ledger.length
  kept : l.kept = ledger.filterMap Answered.kept?
  once : (l.kept.map Prod.fst).Nodup

theorem records_empty : Records {} [] :=
  ⟨rfl, rfl, rfl, .nil⟩

namespace Records

/-- A question that goes past what is kept is put down with its answer. -/
theorem asked {e : Entry} {path : String} (h : l.Records ledger)
    (hget : l.get? e.id path = none) :
    ((LookupM.discover examiner e path).run.run l).2.Records
      (ledger ++ [⟨e, path, examiner e path⟩]) := by
  have hcalls : l.calls ++ [(e, path)] =
      (ledger ++ [Answered.mk e path (examiner e path)]).map Answered.question := by
    rw [h.calls, List.map_append]
    rfl
  have hloads : l.loads + 1 = (ledger ++ [Answered.mk e path (examiner e path)]).length := by
    rw [h.loads, List.length_append, List.length_singleton]
  cases ha : examiner e path with
  | ok found =>
    rw [ha] at hcalls hloads
    rw [LookupM.discover_ok hget ha]
    refine ⟨hcalls, hloads, ?_, ?_⟩
    · rw [Lookups.asked, h.kept, List.filterMap_append]
      rfl
    · rw [Lookups.asked, List.map_append]
      -- nothing is kept under the key yet, so that it is not asked for a second time
      refine List.nodup_append.2 ⟨h.once, List.pairwise_singleton _ _, ?_⟩
      intro key hkey key' hkey' heq
      rw [heq, List.mem_singleton.1 hkey'] at hkey
      exact not_mem_keys_of_get? hget hkey
  | error failure =>
    rw [ha] at hcalls hloads
    rw [LookupM.discover_error hget ha]
    refine ⟨hcalls, hloads, ?_, h.once⟩
    rw [Lookups.asked, h.kept, List.filterMap_append]
    exact (List.append_nil _).symm

/-! ### What can be read off a ledger -/

/-- No key is discovered twice. -/
theorem nodup_keys (h : l.Records ledger) :
    ((ledger.filter Answered.succeeded).map Answered.key).Nodup := by
  rw [← Answered.map_fst_filterMap_kept?, ← h.kept]
  exact h.once

/-- As many values are kept as answers were no failures. -/
theorem size_eq_length (h : l.Records ledger) :
    l.size = (ledger.filter Answered.succeeded).length := by
  rw [size, h.kept, ← List.length_map Prod.fst, Answered.map_fst_filterMap_kept?,
    List.length_map]

/-- **As many values are kept as keys have been discovered.** -/
theorem size_eq (h : l.Records ledger) :
    l.size = ((ledger.filter Answered.succeeded).map Answered.key).toFinset.card := by
  rw [List.toFinset_card_of_nodup h.nodup_keys, List.length_map, h.size_eq_length]

/-- **Every load is a value kept or a failure.** -/
theorem loads_eq (h : l.Records ledger) :
    l.loads = l.size + (ledger.filter fun a => !a.succeeded).length := by
  rw [h.loads, h.size_eq_length]
  exact List.length_eq_length_filter_add _

end Records

/-! ### One lookup -/

/-- The state records a ledger that goes on from another one, with answers of an examiner. -/
def GoesOn (examiner : Examiner) (ledger : List Answered) (l : Lookups) : Prop :=
  ∃ added, (∀ a ∈ added, a.answer = examiner a.entry a.path) ∧ l.Records (ledger ++ added)

theorem Records.goesOn (h : l.Records ledger) (examiner : Examiner) : l.GoesOn examiner ledger :=
  ⟨[], nofun, by rwa [List.append_nil]⟩

/-- **A lookup goes on with the ledger**: it adds its question, with the answer of the
examiner, or nothing. -/
theorem GoesOn.discover (h : l.GoesOn examiner ledger) (e : Entry) (path : String) :
    ((LookupM.discover examiner e path).run.run l).2.GoesOn examiner ledger := by
  obtain ⟨added, hadded, hl⟩ := h
  cases hget : l.get? e.id path with
  | none =>
    refine ⟨added ++ [⟨e, path, examiner e path⟩], fun a ha => ?_, ?_⟩
    · rcases List.mem_append.1 ha with ha | ha
      · exact hadded a ha
      · rw [List.mem_singleton.1 ha]
    · rw [← List.append_assoc]
      exact hl.asked hget
  | some hit =>
    rw [LookupM.discover_hit hget]
    exact ⟨added, hadded, hl⟩

end Lookups

end ObjectQuery
