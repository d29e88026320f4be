import ObjectQuery.Condition.Evaluate
import ObjectQuery.Report.Cell

/-!
# Matching entries without an order

Entries are tested one after another. Each that fulfils the condition gives a row
with a cell for every column, and rows are kept under the number of their entry, so
that an entry given twice is kept once. A **limit** bounds the rows kept: once it is
reached no further entry is looked at. A failure while testing an entry only leaves
that entry out, and a failing column only empties its cell.

One entry is tested at a time, in the order given, so that a limit keeps the rows of the
first entries that match. The rows come out in the order of their entries' numbers.
-/

namespace ObjectQuery.Matching

/-- What is asked of every entry. -/
structure Request where
  condition : Condition
  columns : List ResultColumn := []
  limit : Option Nat := none

/-- A limit that is not positive is none. -/
def limitOf (limit : Int) : Option Nat :=
  if 0 < limit then some limit.toNat else none

/-! ### One entry -/

/-- What the columns of a request show of an entry. A failed lookup is shown as *not
found*. -/
def showColumns (examiner : Examiner) (entry : Entry) :
    List ResultColumn → StateM Lookups (List (String × Found))
  | [] => return []
  | c :: rest => do
    let found ← match ← (LookupM.discover examiner entry c.path).run with
      | .ok found => pure found
      | .error failure => pure (.notFound failure.message)
    return (c.title, found) :: (← showColumns examiner entry rest)

/-- The row of an entry, if it fulfils the condition; an entry that cannot be tested
gives none. -/
def row? (examiner : Examiner) (r : Request) (entry : Entry) :
    StateM Lookups (Option ResultRow) := do
  match ← (Condition.holds examiner (.entry entry) r.condition).run with
  | .ok true =>
    let shown ← showColumns examiner entry r.columns
    return some ⟨entry, Cells.ofFound shown⟩
  | _ => return none

/-! ### All entries -/

/-- Puts a row in its place among rows that ascend by entry; a row of the same entry
gives way. -/
def insertRow (row : ResultRow) : List ResultRow → List ResultRow
  | [] => [row]
  | r :: rest =>
    if row.entry.id < r.entry.id then row :: r :: rest
    else if row.entry.id = r.entry.id then row :: rest
    else r :: insertRow row rest

/-- Whether as many rows are kept as the limit allows. -/
def isSaturated (limit : Option Nat) (kept : List ResultRow) : Bool :=
  match limit with
  | some n => n ≤ kept.length
  | none => false

/-- Tests entries in order and adds the rows of those that match to the rows kept. -/
def collect (examiner : Examiner) (r : Request) (kept : List ResultRow) :
    List Entry → StateM Lookups (List ResultRow)
  | [] => return kept
  | entry :: rest =>
    if isSaturated r.limit kept then return kept
    else do
      match ← row? examiner r entry with
      | some row => collect examiner r (insertRow row kept) rest
      | none => collect examiner r kept rest

/-- The rows of the entries that match, in the order of their numbers. -/
def run (examiner : Examiner) (r : Request) (entries : List Entry) :
    StateM Lookups (List ResultRow) :=
  collect examiner r [] entries

end ObjectQuery.Matching
