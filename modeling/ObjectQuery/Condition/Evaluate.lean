import ObjectQuery.Condition.Basic
import ObjectQuery.Lookup

/-!
# Evaluating conditions

A condition is evaluated against a **subject**, which says what paths are looked up
on: an entry, a found value (an element under a quantifier), or a projected row,
where a path that names a column reads the column and any other falls back on the
entry behind the row.

The fold keeps one running truth value. An operand whose relation cannot change it
(`AND` after false, `OR` after true) is **skipped**, which matters because nothing is
looked up for it and nothing in it can fail. A quantifier stops at the first element
that decides it.
-/

namespace ObjectQuery

/-- A row of projected values and the entry behind it, if there is one. -/
structure ProjectedRow where
  backing? : Option Entry
  columns : List Found

/-- What the paths of a condition are looked up on. -/
inductive Subject where
  | entry (e : Entry)
  | value (found : Found)
  | row (r : ProjectedRow) (projection : Projection)

namespace Subject

/-- A path is neither projected nor can it be looked up. -/
def notProjected (path : String) : Found :=
  .notFound ("'" ++ path ++ "' is not projected and the row has no backing entry")

/-- What a path finds on the entry behind a row. -/
def readBehind (examiner : Examiner) (r : ProjectedRow) (path : String) : LookupM Found :=
  match r.backing? with
  | some e => LookupM.discover examiner e path
  | none => return notProjected path

/-- What a path finds on a subject. -/
def read (examiner : Examiner) (s : Subject) (path : String) : LookupM Found :=
  match s with
  | .entry e => LookupM.discover examiner e path
  | .value found => return found.resolve path
  | .row r projection =>
    match (Projection.indexOf? projection path).bind (r.columns[·]?) with
    | some found => return found
    | none => readBehind examiner r path

end Subject

/-- Whether an operand behind a relation cannot change the running truth value. -/
def Relation.skips : Relation → Bool → Bool
  | .and, state => !state
  | .or, state => state

/-- Whether one element decides a quantifier. -/
def Quantifier.decidedBy : Quantifier → Bool → Bool
  | .any, holds => holds
  | .none, holds => holds
  | .all, holds => !holds

/-- What a quantifier comes to when an element decides it. -/
def Quantifier.decided : Quantifier → Bool
  | .any => true
  | _ => false

/-- What a quantifier comes to over elements, tested in order up to the first that
decides it. -/
def Quantifier.over (q : Quantifier) (holds : Found → LookupM Bool) : List Found → LookupM Bool
  | [] => return !q.decided
  | element :: rest => do
    if q.decidedBy (← holds element) then return q.decided else q.over holds rest

namespace Condition

mutual

/-- Whether an element holds of a subject. -/
def holdsElement (examiner : Examiner) (s : Subject) : Element → LookupM Bool
  | .assertion path check => do
    let found ← s.read examiner path
    holdsCheck examiner found check
  | .condition clauses => holds examiner s clauses

/-- Whether a found value passes a check. -/
def holdsCheck (examiner : Examiner) (found : Found) : Check → LookupM Bool
  | .predicate p => ExceptT.mk (pure (p.test found))
  | .quantified q clauses =>
    match found with
    | .list elements => q.over (fun element => holds examiner (.value element) clauses) elements
    | _ => return false

/-- Whether a condition holds of a subject. The empty condition does. -/
def holds (examiner : Examiner) (s : Subject) : List Clause → LookupM Bool
  | [] => return true
  | ⟨_, element⟩ :: rest => do
    let state ← holdsElement examiner s element
    holdsRest examiner s state rest

/-- Folds the clauses behind the first into a running truth value. -/
def holdsRest (examiner : Examiner) (s : Subject) (state : Bool) : List Clause → LookupM Bool
  | [] => return state
  | ⟨relation, element⟩ :: rest =>
    if relation.skips state then holdsRest examiner s state rest
    else do
      let state ← holdsElement examiner s element
      holdsRest examiner s state rest

end

end Condition

end ObjectQuery
