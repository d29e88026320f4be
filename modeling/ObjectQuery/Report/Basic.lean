import ObjectQuery.Failure
import ObjectQuery.Report.Cell
import ObjectQuery.Script.Codec

/-!
# Reports

A run of a script is reported by what every instruction came to, or by the failure
that ended it. A script that may not run is told apart from other failures and is
reported with the instruction at fault; a message from elsewhere that points at a
line and a column is reported as a compilation error (`Report.ofMessage`).
-/

namespace ObjectQuery

/-- What a query shows: its columns and its rows. -/
structure ResultSet where
  columns : List ResultColumn
  rows : List ResultRow

/-- What an instruction came to. -/
inductive Outcome where
  | indexed (index : IndexInstruction) (count : Nat)
  | queried (text : String) (result : ResultSet)

/-- How a script fared. -/
inductive Report where
  | done (outcomes : List Outcome)
  | unknownError (message : String)
  | compilationError (line column : Nat) (message : String)
  | impermissible (message offending : String)

namespace Report

/-- The report of a failure. -/
def ofFailure : Failure → Report
  | .impermissible detail instruction => .impermissible detail instruction
  | failure => .unknownError failure.message

/-- Whether a script ran to its end. -/
def isDone : Report → Bool
  | .done _ => true
  | _ => false

/-- What the instructions came to, if the script ran to its end. -/
def outcomes : Report → List Outcome
  | .done outcomes => outcomes
  | _ => []

/-- The result sets of the queries, in the order they ran. -/
def resultSets (r : Report) : List ResultSet :=
  r.outcomes.filterMap fun
    | .queried _ result => some result
    | .indexed _ _ => none

/-- The counts of the indexes, in the order they ran. -/
def counts (r : Report) : List Nat :=
  r.outcomes.filterMap fun
    | .indexed _ count => some count
    | .queried _ _ => none

/-! ### JSON -/

/-- A result set as JSON. -/
def resultSetValue (s : ResultSet) : Value :=
  .object
    [("meta", .object [("columns", .array (s.columns.map ResultColumn.toValue))]),
     ("rows", .array (s.rows.map ResultRow.toValue))]

/-- An outcome as JSON. -/
def outcomeValue : Outcome → Value
  | .indexed index count =>
    .object
      [("kind", .string "indexing_performed"), ("implicit", .boolean index.isImplicit),
       ("schemas", index.target.schemas.toValue), ("types", index.target.types.toValue),
       ("text", .string index.text), ("count", .ofNat count)]
  | .queried text result =>
    .object
      [("kind", .string "query_performed"), ("text", .string text),
       ("result_set", resultSetValue result)]

/-- A report as JSON. -/
def toValue : Report → Value
  | .done outcomes =>
    .object [("status", .string "ok"), ("results", .array (outcomes.map outcomeValue))]
  | .unknownError message =>
    .object [("status", .string "unknown_error"), ("message", .string message)]
  | .compilationError line column message =>
    .object
      [("status", .string "compilation_error"), ("line", .ofNat line),
       ("column", .ofNat column), ("message", .string message)]
  | .impermissible message offending =>
    .object
      [("status", .string "impermissible_instruction"), ("message", .string message),
       ("offending_text", .string offending)]

end Report

end ObjectQuery
