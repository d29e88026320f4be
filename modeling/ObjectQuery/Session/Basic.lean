import ObjectQuery.Lookup
import ObjectQuery.Report.Basic

/-!
# Sessions

Scripts run in a **session**, which holds the store and what has been looked up. Two
things come from outside and are fixed while a script runs, its **access**: the
examiner that answers lookups, and a say in which targets may be indexed, and how.
-/

namespace ObjectQuery

/-- What the instructions of a script change. -/
structure Session where
  store : Store := {}
  lookups : Lookups := {}

/-- Why a target may not be indexed by a strategy, if it may not. -/
abbrev Refusal := Strategy → Target → Option Failure

/-- A say in which targets may be indexed is one for every strategy. -/
instance : Coe (Target → Option Failure) Refusal where
  coe refuse := fun _ => refuse

/-- What a script reaches from outside. -/
structure Access where
  examine : Examiner
  refuse : Refusal := fun _ _ => none

/-- The access that a store gives by itself. -/
def Store.access (s : Store) : Access where
  examine := s.examine

/-- A computation in a session that may fail. -/
abbrev SessionM := ExceptT Failure (StateM Session)

namespace SessionM

/-- Runs a computation on what has been looked up. -/
def onLookups {α : Type} (x : StateM Lookups α) : StateM Session α := do
  modifyGet fun s =>
    let (a, lookups) := x s.lookups
    (a, { s with lookups })

/-- Indexes a target, unless that is refused, and counts its entries. -/
def refresh (a : Access) (strategy : Strategy) (t : Target) : SessionM Nat := do
  match a.refuse strategy t with
  | some failure => throw failure
  | none =>
    modifyGet fun s =>
      let (count, store) := s.store.refresh strategy t
      (count, { s with store })

end SessionM

end ObjectQuery
