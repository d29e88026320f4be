import ObjectQuery.Matching
import ObjectQuery.Pipeline.Basic
import ObjectQuery.Plan
import ObjectQuery.Session.Basic
import ObjectQuery.Settings.Basic

/-!
# Executing scripts

A script is planned and then run one instruction after another, each seeing what the
ones before it did. A script that is refused changes nothing; a failing instruction
ends the run, and what was done before it stays done.

A query without sort keys matches entries one by one. A query **with** sort keys goes
through a pipeline that filters, projects and sorts, and cuts the sorted rows to the
limit. For that every sort key has to name a column, so keys that name neither a
title nor a path of the columns asked for get a column of their own, which shows in
the result.

Entries and rows are dealt with one at a time. The settings that bound how many may be in
flight have no part in this; where they ask for more than can be, there is no run at all
(`Gate.admitsScript`).
-/

namespace ObjectQuery

namespace Execute

/-! ### Indexes -/

/-- Runs an index. -/
def runIndex (a : Access) (i : IndexInstruction) : SessionM Outcome := do
  return .indexed i (← SessionM.refresh a i.strategy i.target)

/-! ### Ordered queries -/

/-- Whether a column goes by a name, as its title or as its path. -/
def goesBy (name : String) (c : ResultColumn) : Bool :=
  c.title == name || c.path == name

/-- Columns with one more for a sort key that names none of them. -/
def withSortColumn (columns : List ResultColumn) (key : SortKey) : List ResultColumn :=
  if columns.any (goesBy key.identifier) then columns
  else columns ++ [⟨key.identifier, key.identifier⟩]

/-- The columns that an ordered query shows. -/
def orderedColumns (q : QueryInstruction) : List ResultColumn :=
  q.sort.foldl withSortColumn q.columns

/-- Columns of a result as a projection, under their titles. -/
def projectionOf (columns : List ResultColumn) : Projection :=
  columns.map fun c => { path := c.path, alias? := some c.title }

/-- The steps of an ordered query that shows the given columns. -/
def orderedSteps (q : QueryInstruction) (columns : List ResultColumn) : List Step :=
  [.filter q.condition, .project (projectionOf columns), .sort q.sort]

/-- The result row of a row with an entry behind it. -/
def resultRow? (columns : List ResultColumn) : Row → Option ResultRow
  | .projected ⟨some entry, found⟩ =>
    some ⟨entry, Cells.ofFound ((columns.map (·.title)).zip found)⟩
  | _ => none

/-- Cuts rows to a limit. -/
def cut {α : Type} (limit : Option Nat) (rows : List α) : List α :=
  match limit with
  | some n => rows.take n
  | none => rows

/-- What an ordered query shows of entries. -/
def runOrdered (examiner : Examiner) (settings : Settings) (q : QueryInstruction)
    (entries : List Entry) : LookupM ResultSet := do
  let columns := orderedColumns q
  let rows ← Pipeline.collect examiner settings.nullsFirst (orderedSteps q columns)
    (entries.map .ok)
  return {
    columns
    rows := cut (Matching.limitOf q.limit.toInt) (rows.filterMap (resultRow? columns)) }

/-! ### Unordered queries -/

/-- What a query asks of every entry. -/
def requestOf (q : QueryInstruction) : Matching.Request where
  condition := q.condition
  columns := q.columns
  limit := Matching.limitOf q.limit.toInt

/-- What an unordered query shows of entries. -/
def runUnordered (examiner : Examiner) (q : QueryInstruction) (entries : List Entry) :
    StateM Lookups ResultSet := do
  return { columns := q.columns, rows := ← Matching.run examiner (requestOf q) entries }

/-! ### Queries -/

/-- What a query shows of entries. -/
def resultOf (examiner : Examiner) (settings : Settings) (q : QueryInstruction)
    (entries : List Entry) : LookupM ResultSet :=
  if q.sort.isEmpty then runUnordered examiner q entries
  else runOrdered examiner settings q entries

/-- Runs a query on the indexed entries of its target. -/
def runQuery (a : Access) (settings : Settings) (q : QueryInstruction) : SessionM Outcome := do
  let entries := (← get).store.get q.target
  let result ← ExceptT.mk (SessionM.onLookups (resultOf a.examine settings q entries).run)
  return .queried q.text result

/-! ### Scripts -/

/-- Changes cannot be made. -/
def updateUnsupported (u : UpdateInstruction) : Failure :=
  .unsupported (u.text ++ ": updates are not supported")

/-- Runs an instruction. -/
def runInstruction (a : Access) (settings : Settings) : Instruction → SessionM Outcome
  | .index i => runIndex a i
  | .query q => runQuery a settings q
  | .update u => throw (updateUnsupported u)

/-- Runs the instructions of a plan up to the first that fails. -/
def runPlan (a : Access) (settings : Settings) : Plan → SessionM (List Outcome)
  | [] => return []
  | i :: rest => do
    let outcome ← runInstruction a settings i
    return outcome :: (← runPlan a settings rest)

end Execute

/-- Plans and runs a script. -/
def Script.execute (s : Script) (a : Access) (settings : Settings) : StateM Session Report := do
  match Plan.ofScript s settings.defaultStrategy with
  | .error failure => return .ofFailure failure
  | .ok plan =>
    match ← (Execute.runPlan a settings plan).run with
    | .ok outcomes => return .done outcomes
    | .error failure => return .ofFailure failure

end ObjectQuery
