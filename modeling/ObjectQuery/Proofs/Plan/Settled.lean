import ObjectQuery.Proofs.Plan.Implicit

/-!
# Plans are planned already

A script is left alone by planning exactly if it is **settled**: every query in it has an index
of exactly its target in front of it (`Plan.ofScript_eq_self_iff`). What planning makes is
settled, so that planning it once more changes nothing, with whatever strategy
(`Plan.ofScript_idempotent`).

The first time, an index that was put in for one query does not serve a later one; the second
time it is there like any other. No position is counted for this. That every query of a plan
has its index was shown where the plan was made (`Plan.exists_index_of_withIndexes`), and that
a settled script needs nothing makes it a plan of itself, of which there is only one
(`Plan.Completes.unique`).
-/

namespace ObjectQuery

namespace Plan

/-- Every query has an index of exactly its target in front of it. -/
def Settled (script : Script) : Prop :=
  ∀ before q after, script = before ++ .query q :: after →
    ∃ i, .index i ∈ before ∧ i.target = q.target

/-- At no position of a settled script an index is needed. -/
theorem Settled.needs {script : Script} (h : Settled script) (strategy : Strategy)
    (position : Nat) : Needs strategy script position none := by
  refine .nothing fun q hq => ?_
  obtain ⟨hlt, hget⟩ := List.getElem?_eq_some_iff.1 hq
  refine h _ q (script.drop (position + 1)) ?_
  rw [← hget, ← List.drop_eq_getElem_cons hlt, List.take_append_drop]

/-- A settled script is a plan of itself. -/
theorem Settled.completes {script : Script} (h : Settled script) (strategy : Strategy) :
    Completes strategy script script := by
  refine ⟨script.map fun x => (none, x), ?_, ?_, fun position p hp => ?_⟩
  · rw [List.map_map]
    exact List.map_id _
  · rw [List.flatMap_map]
    exact (List.flatMap_singleton' script).symm
  · rw [List.getElem?_map, Option.map_eq_some_iff] at hp
    obtain ⟨x, -, rfl⟩ := hp
    exact h.needs strategy position

/-- **What planning makes is settled.** -/
theorem settled_withIndexes (strategy : Strategy) (script : Script) :
    Settled (withIndexes strategy [] script) :=
  fun _ _ _ hplan => exists_index_of_withIndexes hplan

/-- **Planning puts nothing into a settled script**, and into any other one it does. -/
theorem withIndexes_eq_self_iff {strategy : Strategy} {script : Script} :
    withIndexes strategy [] script = script ↔ Settled script := by
  constructor
  · intro h
    rw [← h]
    exact settled_withIndexes strategy script
  · intro h
    exact (completes_withIndexes strategy script).unique (h.completes strategy)

/-- The indexes that planning puts in name schemas if the queries do. -/
theorem not_namesNoSchema_withIndexes {script : Script} (h : ∀ x ∈ script, ¬NamesNoSchema x)
    (strategy : Strategy) : ∀ x ∈ withIndexes strategy [] script, ¬NamesNoSchema x := by
  intro x hx
  rcases mem_withIndexes hx with hx | ⟨q, hq, rfl⟩
  · exact h x hx
  · rintro ⟨hempty⟩
    exact h _ hq (.query hempty)

/-- **The scripts that planning leaves alone** name schemas and are settled. -/
theorem ofScript_eq_self_iff {script : Script} {strategy : Strategy} :
    ofScript script strategy = .ok script ↔ (∀ x ∈ script, ¬NamesNoSchema x) ∧ Settled script := by
  rw [ofScript_eq_ok_iff, eq_comm, withIndexes_eq_self_iff]

/-- **Planning is idempotent**: a plan is accepted when it is planned again, with any strategy,
and is its own plan. -/
theorem ofScript_idempotent {script : Script} {strategy : Strategy} {plan : Plan}
    (h : ofScript script strategy = .ok plan) (strategy' : Strategy) :
    ofScript plan strategy' = .ok plan := by
  obtain ⟨hnames, rfl⟩ := ofScript_eq_ok_iff.1 h
  exact ofScript_eq_self_iff.2
    ⟨not_namesNoSchema_withIndexes hnames strategy, settled_withIndexes strategy script⟩

/-- The indexes that were put in for a query asked twice stay two, also where the strategy is
another one by then. -/
theorem ofScript_idempotent_askedTwice :
    ∃ plan, ofScript askedTwice .initial = .ok plan ∧ implicitCount plan = 2 ∧
      ofScript plan .onDemand = .ok plan := by
  have hplan : ofScript askedTwice .initial = .ok (withIndexes .initial [] askedTwice) := rfl
  exact ⟨_, hplan, rfl, ofScript_idempotent hplan .onDemand⟩

end Plan

end ObjectQuery
