import ObjectQuery.Proofs.Lookup.Gives
import ObjectQuery.Session.Execute

/-!
# What a computation in a session brings

A session is a store and what has been looked up. `Brings P s x r s'` says of a
computation that from the store `s` and **any** lookups that fulfil the invariant `P` it
comes to `r` and leaves the store `s'`, and lookups that fulfil the invariant again. So
what is kept never shows in what is brought, and the store changes in a way known in
advance.

There is one lemma for each thing that an instruction does: indexing (`brings_refresh`,
`brings_refresh_refused`) and querying (`brings_runQuery`).
-/

namespace ObjectQuery

/-- From a store, and from all lookups that fulfil the invariant, a computation comes to
the result given and leaves a store and lookups that fulfil it again. -/
def Brings {α : Type} (P : Lookups → Prop) (s : Store) (x : SessionM α) (r : Except Failure α)
    (s' : Store) : Prop :=
  ∀ l, P l → ∃ l', P l' ∧ x.run.run ⟨s, l⟩ = (r, ⟨s', l'⟩)

namespace Brings

variable {α β : Type} {P : Lookups → Prop} {s s' s'' : Store} {x : SessionM α}
  {f : α → SessionM β}

theorem pure (a : α) : Brings P s (pure a) (.ok a) s :=
  fun l h => ⟨l, h, rfl⟩

/-- A sequence whose first part succeeds. -/
theorem bind {a : α} {r : Except Failure β} (hx : Brings P s x (.ok a) s')
    (hf : Brings P s' (f a) r s'') : Brings P s (x >>= f) r s'' := by
  intro l h
  obtain ⟨l', h', hrun⟩ := hx l h
  obtain ⟨l'', h'', hrun'⟩ := hf l' h'
  exact ⟨l'', h'', (run_bind_of_ok hrun).trans hrun'⟩

/-- A sequence whose first part fails. -/
theorem bind_error {failure : Failure} (hx : Brings P s x (.error failure) s') :
    Brings P s (x >>= f) (.error failure) s' := by
  intro l h
  obtain ⟨l', h', hrun⟩ := hx l h
  exact ⟨l', h', run_bind_of_error hrun⟩

/-- A computation whose answer is turned into another, if there is one. -/
theorem map {r : Except Failure α} (hx : Brings P s x r s') (g : α → β) :
    Brings P s (x >>= fun a => Pure.pure (g a)) (r.map g) s' := by
  cases r with
  | ok a => exact hx.bind (Brings.pure _)
  | error failure => exact hx.bind_error

end Brings

variable {P : Lookups → Prop}

/-- A computation on lookups brings what it gives, and leaves the store alone. -/
theorem brings_onLookups {α : Type} {x : LookupM α} {r : Except Failure α} (hx : Gives P x.run r)
    (s : Store) : Brings P s (ExceptT.mk (SessionM.onLookups x.run)) r s := by
  intro l h
  obtain ⟨hr, hl⟩ := hx l h
  refine ⟨(x.run.run l).2, hl, ?_⟩
  rw [← hr]
  rfl

namespace Execute

/-! ### Indexing -/

/-- **Indexing counts the entries and changes the store**, unless it is refused. -/
theorem brings_runIndex {a : Access} {i : IndexInstruction}
    (h : a.refuse i.strategy i.target = none) (s : Store) :
    Brings P s (runIndex a i) (.ok (.indexed i (s.refresh i.strategy i.target).1))
      (s.refresh i.strategy i.target).2 := by
  have hrefresh : Brings P s (SessionM.refresh a i.strategy i.target)
      (.ok (s.refresh i.strategy i.target).1) (s.refresh i.strategy i.target).2 := by
    intro l hl
    refine ⟨l, hl, ?_⟩
    rw [SessionM.refresh, h]
    rfl
  exact hrefresh.map _

/-- A refused index fails and changes nothing. -/
theorem brings_runIndex_refused {a : Access} {i : IndexInstruction} {failure : Failure}
    (h : a.refuse i.strategy i.target = some failure) (s : Store) :
    Brings P s (runIndex a i) (.error failure) s := by
  have hrefresh : Brings P s (SessionM.refresh a i.strategy i.target) (.error failure) s := by
    intro l hl
    refine ⟨l, hl, ?_⟩
    rw [SessionM.refresh, h]
    rfl
  exact hrefresh.bind_error

/-! ### Querying -/

/-- **A query brings its result set** under the text of the query, if the lookups give
it, and leaves the store alone. -/
theorem brings_runQuery {a : Access} {settings : Settings} {q : QueryInstruction}
    {result : ResultSet} {s : Store}
    (h : Gives P (resultOf a.examine settings q (s.get q.target)).run (.ok result)) :
    Brings P s (runQuery a settings q) (.ok (.queried q.text result)) s := by
  have hresult : Brings P s
      (ExceptT.mk (SessionM.onLookups (resultOf a.examine settings q (s.get q.target)).run) >>=
        fun result => pure (Outcome.queried q.text result)) (.ok (.queried q.text result)) s :=
    (brings_onLookups h s).map _
  -- the session is read first, and only its store is used
  intro l hl
  obtain ⟨l', h', hrun⟩ := hresult l hl
  have hget : (get : SessionM Session).run.run ⟨s, l⟩ = (.ok ⟨s, l⟩, ⟨s, l⟩) := rfl
  exact ⟨l', h', (run_bind_of_ok hget).trans hrun⟩

end Execute

end ObjectQuery
