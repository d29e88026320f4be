import ObjectQuery.Pipeline.Stream
import ObjectQuery.Sorting

/-!
# Stages

A stage makes a stream out of a stream. **Filtering** keeps the rows that fulfil a
condition, **projecting** replaces a row by the columns of a projection, and
**sorting** puts the rows in order. A row for which a condition or a projection fails
is dropped; it never stops the stage.

Projecting a row that is projected already takes over the columns it has, found by
their paths in the projection that the stream declares, and looks up the missing ones
on the entry behind the row.

A sorting stage takes projected rows only. It stops without output at the first row
that is none. Nor is there any output if sorting the rows breaks off, which it can where
the order of two numbers depends on which others they are compared with.

A stage deals with its rows one at a time, in the order in which they come.
-/

namespace ObjectQuery

/-- What a stage does, worked out from the projection that its input declares. -/
inductive Stage where
  | filter (condition : Condition) (declared? : Option Projection)
  | project (target : Projection) (declared? : Option Projection)
  | sort (keys : List (Nat × Direction)) (declared : Projection)

namespace Stage

/-! ### Failures of a row -/

/-- A projected row in a stream that declares no projection, with no entry behind it. -/
def rowWithoutSubject : Failure :=
  .pipeline "projection row without definition or entry"

/-- A projected row in a stream that declares no projection. -/
def rowWithoutProjection : Failure :=
  .pipeline "projection row without definition"

/-- Columns to look up for a row that has no entry behind it. -/
def rowWithoutEntry : Failure :=
  .pipeline "cannot discover missing columns without a backing entry"

/-! ### Filtering -/

/-- What the condition of a filter is evaluated against. -/
def subject (declared? : Option Projection) : Row → Except Failure Subject
  | .entry e => .ok (.entry e)
  | .projected r =>
    match declared?, r.backing? with
    | some projection, _ => .ok (.row r projection)
    | none, some e => .ok (.entry e)
    | none, none => .error rowWithoutSubject

/-- The row itself if it fulfils the condition. -/
def filterRow (examiner : Examiner) (condition : Condition) (declared? : Option Projection)
    (row : Row) : LookupM (Option Row) := do
  let s ← ExceptT.mk (pure (subject declared? row))
  return if ← Condition.holds examiner s condition then some row else none

/-! ### Projecting -/

/-- Where the columns of a projection come from: for each the position of the column
of the same path in the projection that the input declares, if there is one. -/
def sources (target declared : Projection) : List (Option Nat) :=
  target.map fun c => Projection.indexOf? declared c.path

/-- The columns of a projection that the projection of the input does not have. -/
def missing (target declared : Projection) : Projection :=
  target.filter fun c => (Projection.indexOf? declared c.path).isNone

/-- Puts columns together from those taken over and those looked up. A column that a
row is too short to have has no value. -/
def fill (columns : List Found) : List (Option Nat) → List Found → List Found
  | [], _ => []
  | some i :: rest, fresh => columns[i]?.getD .noValue :: fill columns rest fresh
  | none :: rest, found :: fresh => found :: fill columns rest fresh
  | none :: rest, [] => .noValue :: fill columns rest []

/-- What the missing columns show of the entry behind a row. -/
def examineMissing (examiner : Examiner) (columns : Projection) (backing? : Option Entry) :
    LookupM (List Found) :=
  if columns.isEmpty then return []
  else match backing? with
    | some e => LookupM.examine examiner e columns
    | none => throw rowWithoutEntry

/-- The row of a projection. -/
def projectRow (examiner : Examiner) (target : Projection) (declared? : Option Projection)
    (row : Row) : LookupM (Option Row) :=
  match row, declared? with
  | .entry e, _ => do
    let columns ← LookupM.examine examiner e target
    return some (.projected ⟨some e, columns⟩)
  | .projected r, some declared => do
    let fresh ← examineMissing examiner (missing target declared) r.backing?
    return some (.projected ⟨r.backing?, fill r.columns (sources target declared) fresh⟩)
  | .projected _, none => throw rowWithoutProjection

/-! ### Sorting -/

/-- Takes in projected rows up to the end, or up to the first row that is none. -/
def takeIn (out : Stream) (taken : List ProjectedRow) :
    List Row → Stream × Option (List ProjectedRow)
  | [] => (out, some taken)
  | .projected r :: rest => takeIn out.see (taken ++ [r]) rest
  | .entry _ :: _ => (out.see, none)

/-- The rows in order, unless sorting them breaks off. -/
def sortRows (noneFirst : Bool) (keys : List (Nat × Direction)) (rows : List ProjectedRow) :
    Option (List ProjectedRow) :=
  Sorting.sort (fun a b => Sorting.compareColumns noneFirst keys a.columns b.columns == .lt) rows

/-- Sorts a stream. -/
def sortStream (noneFirst : Bool) (keys : List (Nat × Direction)) (declared : Projection)
    (input : Stream) : Stream :=
  let (out, taken) := takeIn { projection? := some declared } [] input.rows
  match taken.bind (sortRows noneFirst keys) with
  | some sorted => sorted.foldl (fun out r => out.process.emit (.projected r)) out
  | none => out

/-! ### Running a stage -/

/-- Treats one row: it is seen, dealt with, and passed on if something comes of it. -/
def treat (f : Row → LookupM (Option Row)) (out : Stream) (row : Row) : StateM Lookups Stream := do
  match ← (f row).run with
  | .ok (some made) => return out.see.process.emit made
  | _ => return out.see.process

/-- Treats rows one after another. -/
def treatAll (f : Row → LookupM (Option Row)) (out : Stream) :
    List Row → StateM Lookups Stream
  | [] => return out
  | row :: rest => do treatAll f (← treat f out row) rest

/-- The projection that the output of a stage declares. -/
def declares : Stage → Option Projection
  | .filter _ declared? => declared?
  | .project target _ => some target
  | .sort _ declared => some declared

/-- The output of a stage for an input. -/
def run (examiner : Examiner) (noneFirst : Bool) (input : Stream) (stage : Stage) :
    StateM Lookups Stream :=
  match stage with
  | .filter condition declared? =>
    treatAll (filterRow examiner condition declared?) { projection? := stage.declares } input.rows
  | .project target declared? =>
    treatAll (projectRow examiner target declared?) { projection? := stage.declares } input.rows
  | .sort keys declared => return sortStream noneFirst keys declared input

end Stage

end ObjectQuery
