import ObjectQuery.Projection
import ObjectQuery.Store.Basic

/-!
# Lookups

Asking what a path finds on an entry may be slow and may fail, so what was found is
**kept**: the first answer for an entry and a path serves every later question. A
failed lookup is not kept, and is tried again. `Lookups` is the state that goes
through a run: what is kept, how many questions went past it (`loads`), and those
questions themselves in order (`calls`). A computation that asks is a `LookupM`; its
failure leaves the state as it was when it failed.

Where answers come from is an argument, the **examiner**.
-/

namespace ObjectQuery

/-- Answers what a path finds on an entry. -/
abbrev Examiner := Entry → String → Except Failure Found

/-- What a run has looked up so far. -/
structure Lookups where
  /-- What is kept for the number of an entry and a path. -/
  kept : List ((Nat × String) × Found) := []
  /-- How many questions were not answered from what is kept. -/
  loads : Nat := 0
  /-- The questions put to the examiner, in order. -/
  calls : List (Entry × String) := []

namespace Lookups

/-- What is kept for an entry and a path. -/
def get? (l : Lookups) (id : Nat) (path : String) : Option Found :=
  l.kept.lookup (id, path)

/-- How many values are kept. -/
def size (l : Lookups) : Nat :=
  l.kept.length

/-- Whether nothing is kept. -/
def isEmpty (l : Lookups) : Bool :=
  l.kept.isEmpty

/-- Keeps a value unless there is one already, and gives the one that is kept. -/
def keep (l : Lookups) (id : Nat) (path : String) (found : Found) : Found × Lookups :=
  match l.get? id path with
  | some earlier => (earlier, l)
  | none => (found, { l with kept := l.kept ++ [((id, path), found)] })

end Lookups

/-- A computation that looks paths up and may fail. -/
abbrev LookupM := ExceptT Failure (StateM Lookups)

namespace LookupM

/-- Puts a question to the examiner and notes it. -/
def ask (examiner : Examiner) (entry : Entry) (path : String) : LookupM Found := do
  modify fun l => { l with calls := l.calls ++ [(entry, path)] }
  ExceptT.mk (pure (examiner entry path))

/-- What a path finds on an entry: what is kept, or else what the examiner answers. -/
def discover (examiner : Examiner) (entry : Entry) (path : String) : LookupM Found := do
  match (← get).get? entry.id path with
  | some hit => return hit
  | none =>
    modify fun l => { l with loads := l.loads + 1 }
    let found ← ask examiner entry path
    modifyGet fun l => l.keep entry.id path found

/-- What a column shows of an entry. A failed lookup and a value of another type both
become *not found* in the column. -/
def examineColumn (examiner : Examiner) (entry : Entry) (c : Column) : StateM Lookups Found := do
  match ← (discover examiner entry c.path).run with
  | .ok found => return if c.type.accepts found then found else .notFound "type mismatch"
  | .error failure => return .notFound failure.message

/-- What every column of a projection shows of an entry. -/
def examine (examiner : Examiner) (entry : Entry) : Projection → StateM Lookups (List Found)
  | [] => return []
  | c :: rest => do
    let found ← examineColumn examiner entry c
    return found :: (← examine examiner entry rest)

end LookupM

end ObjectQuery
