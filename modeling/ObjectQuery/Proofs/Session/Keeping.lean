import ObjectQuery.Proofs.Session.Looking

/-!
# What every lookup keeps, every run keeps

An invariant that a single lookup keeps is kept by everything that is put together of lookups
(`LooksUp.keeps`), and so by whatever is run in a session (`LooksUpWithin.keeps`).
-/

namespace ObjectQuery

/-- A computation leads from states that fulfil an invariant to such states. -/
def Keeps {σ α : Type} (P : σ → Prop) (x : StateM σ α) : Prop :=
  ∀ s, P s → P (x.run s).2

namespace Keeps

variable {σ α β : Type} {P : σ → Prop}

theorem pure (a : α) : Keeps P (pure a : StateM σ α) :=
  fun _ h => h

theorem bind {x : StateM σ α} {f : α → StateM σ β} (hx : Keeps P x) (hf : ∀ a, Keeps P (f a)) :
    Keeps P (x >>= f) :=
  fun s h => hf _ _ (hx s h)

end Keeps

section Lookups

variable {α : Type} {P : Lookups → Prop} {examiner : Examiner}

/-- **Lookups keep what each of them keeps.** -/
theorem LooksUp.keeps {about : Entry → Prop} {f : Examiner → StateM Lookups α}
    (hf : LooksUp about f)
    (h : ∀ e, about e → ∀ path, Keeps P (LookupM.discover examiner e path).run) :
    Keeps P (f examiner) := by
  induction hf with
  | pure a => exact Keeps.pure a
  | discover he path => exact h _ he path
  | bind _ _ ihf ihg => exact ihf.bind ihg

/-- **A run in a session keeps what lookups keep**, whatever becomes of the store. -/
theorem LooksUpWithin.keeps {f : Examiner → StateM Session α} (hf : LooksUpWithin f)
    (h : ∀ e path, Keeps P (LookupM.discover examiner e path).run) :
    Keeps (fun session : Session => P session.lookups) (f examiner) := by
  induction hf with
  | quiet hquiet =>
    intro session hsession
    rwa [hquiet]
  | onLookups hf => exact fun session hsession => hf.keeps (fun e _ => h e) _ hsession
  | bind _ _ ihf ihg => exact ihf.bind ihg

end Lookups

end ObjectQuery
