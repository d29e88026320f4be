import ObjectQuery.Proofs.Lookup.Gives
import ObjectQuery.Proofs.Session.Looking

/-!
# What a run learns of its examiner

Whatever a run is told by its examiner it has asked for, and what it asks is put down among its
calls. So the calls are all that a run depends on: with another examiner that answers these
questions alike it comes to the same, and leaves the same state (`AsksOnRecord`). What is answered
from what is kept has no part in it, and neither has what the examiner would say to anything else.

The one place where an examiner is asked is a lookup (`LookupM.asksOnRecord_discover`), so this
holds of everything that is put together of lookups (`LooksUp.asksOnRecord`), up to what is run in
a session (`LooksUpWithin.asksOnRecord`). A function that asked an examiner behind the back of the
calls, or looked at answers that it has not asked for, would not be put together like this.
-/

namespace ObjectQuery

/-- A computation puts down the questions that it asks of its examiner, which are about entries
of a kind, and learns nothing of it but the answers to these. -/
def AsksOnRecord {σ α : Type} (about : Entry → Prop) (calls : σ → List (Entry × String))
    (f : Examiner → StateM σ α) : Prop :=
  ∀ examiner s, ∃ asked, calls ((f examiner).run s).2 = calls s ++ asked ∧
    (∀ question ∈ asked, about question.1) ∧
    ∀ other : Examiner, (∀ question ∈ asked,
      other question.1 question.2 = examiner question.1 question.2) →
        (f other).run s = (f examiner).run s

namespace AsksOnRecord

variable {σ α β : Type} {about : Entry → Prop} {calls : σ → List (Entry × String)}

/-- A computation that has no use for an examiner. -/
theorem of_calls_eq {x : StateM σ α} (h : ∀ s, calls (x.run s).2 = calls s) :
    AsksOnRecord about calls fun _ => x :=
  fun _ s => ⟨[], by rw [h, List.append_nil], nofun, fun _ _ => rfl⟩

theorem bind {f : Examiner → StateM σ α} {g : α → Examiner → StateM σ β}
    (hf : AsksOnRecord about calls f) (hg : ∀ a, AsksOnRecord about calls (g a)) :
    AsksOnRecord about calls fun examiner => f examiner >>= fun a => g a examiner := by
  intro examiner s
  obtain ⟨asked, hcalls, habout, hsame⟩ := hf examiner s
  obtain ⟨asked', hcalls', habout', hsame'⟩ :=
    hg ((f examiner).run s).1 examiner ((f examiner).run s).2
  refine ⟨asked ++ asked', ?_, List.forall_mem_append.2 ⟨habout, habout'⟩, fun other hother => ?_⟩
  · rw [← List.append_assoc, ← hcalls]
    exact hcalls'
  · obtain ⟨hfirst, hsecond⟩ := List.forall_mem_append.1 hother
    rw [run_bind_of_run (hsame other hfirst)]
    exact hsame' other hsecond

end AsksOnRecord

/-- **A lookup asks on record**, if it asks at all. -/
theorem LookupM.asksOnRecord_discover {about : Entry → Prop} {e : Entry} (he : about e)
    (path : String) :
    AsksOnRecord about Lookups.calls fun examiner => (discover examiner e path).run := by
  intro examiner l
  have habout : ∀ question ∈ [(e, path)], about question.1 := by simpa using he
  rcases discover_cases examiner e path l with
    ⟨hit, hget, hrun⟩ | ⟨found, hget, ha, hrun⟩ | ⟨failure, hget, ha, hrun⟩
  · exact ⟨[], by rw [hrun, List.append_nil], nofun, fun _ _ => by rw [hrun, discover_hit hget]⟩
  · refine ⟨[(e, path)], by rw [hrun]; rfl, habout, fun other hother => ?_⟩
    rw [hrun, discover_ok hget ((hother _ List.mem_cons_self).trans ha)]
  · refine ⟨[(e, path)], by rw [hrun]; rfl, habout, fun other hother => ?_⟩
    rw [hrun, discover_error hget ((hother _ List.mem_cons_self).trans ha)]

/-- **What is put together of lookups asks on record.** -/
theorem LooksUp.asksOnRecord {α : Type} {about : Entry → Prop} {f : Examiner → StateM Lookups α}
    (hf : LooksUp about f) : AsksOnRecord about Lookups.calls f := by
  induction hf with
  | pure a => exact .of_calls_eq fun _ => rfl
  | discover he path => exact LookupM.asksOnRecord_discover he path
  | bind _ _ ihf ihg => exact ihf.bind ihg

/-- The questions that have been put in a session. -/
def Session.calls (session : Session) : List (Entry × String) :=
  session.lookups.calls

/-- **What is run in a session asks on record.** -/
theorem LooksUpWithin.asksOnRecord {α : Type} {f : Examiner → StateM Session α}
    (hf : LooksUpWithin f) : AsksOnRecord (fun _ => True) Session.calls f := by
  induction hf with
  | quiet hquiet => exact .of_calls_eq fun session => congrArg Lookups.calls (hquiet session)
  | onLookups hf =>
    intro examiner session
    obtain ⟨asked, hcalls, habout, hsame⟩ := hf.asksOnRecord examiner session.lookups
    refine ⟨asked, hcalls, habout, fun other hother => ?_⟩
    have hrun := hsame other hother
    exact congrArg (fun r => (r.1, { session with lookups := r.2 })) hrun
  | bind _ _ ihf ihg => exact ihf.bind ihg

end ObjectQuery
