import ObjectQuery.Projection
import ObjectQuery.Sorting.Runs

/-!
# The order of rows

Rows are sorted by the values in some of their columns, each ascending or
descending. Values of the **none family** stand together at one end, which end a
setting decides and the direction does not. Among the others primitives come before
objects and lists, which are all alike; a descending key turns this order round.
-/

namespace ObjectQuery

/-- The direction of a sort key. -/
inductive Direction where
  | ascending
  | descending
deriving DecidableEq

/-- A sort key: the identifier of a column, and a direction. -/
structure SortKey where
  identifier : String
  direction : Direction := .ascending
deriving DecidableEq

namespace Direction

/-- The names of the directions. -/
def names : List (String × Direction) :=
  [("asc", .ascending), ("desc", .descending)]

/-- The name of a direction. -/
def name : Direction → String
  | .ascending => "asc"
  | .descending => "desc"

/-- Turns an order round when the direction is descending. -/
def apply : Direction → Ordering → Ordering
  | .ascending, o => o
  | .descending, o => o.swap

end Direction

namespace SortKey

/-- Reads a sort key. -/
def ofValue? (place : Place) (v : Value) : Option SortKey :=
  match Record.slots? ["identifier", "direction"] v with
  | some [identifier, direction] => do
    let identifier ← Record.required Value.string? identifier
    let direction ←
      Record.optional .ascending (Record.choice? Direction.names place) direction
    return { identifier, direction }
  | _ => none

/-- A sort key as JSON. -/
def toValue (k : SortKey) : Value :=
  .object [("identifier", .string k.identifier), ("direction", .string k.direction.name)]

end SortKey

namespace Sorting

/-! ### The order of rows -/

/-- The order of two values that are both there. -/
def compareSome : Found → Found → Ordering
  | .primitive a, .primitive b => a.compare b
  | .primitive _, _ => .lt
  | _, .primitive _ => .gt
  | _, _ => .eq

/-- The order of two found values under one key. -/
def compareValues (direction : Direction) (noneFirst : Bool) (a b : Found) : Ordering :=
  match a.isNone, b.isNone with
  | true, true => .eq
  | true, false => if noneFirst then .lt else .gt
  | false, true => if noneFirst then .gt else .lt
  | false, false => direction.apply (compareSome a b)

/-- The value in a column of a row; a row that is too short has no value there. -/
def columnValue (columns : List Found) (i : Nat) : Found :=
  columns[i]?.getD .noValue

/-- The order of two rows under several keys: the first key that tells them apart
decides. -/
def compareColumns (noneFirst : Bool) (keys : List (Nat × Direction)) (a b : List Found) :
    Ordering :=
  match keys with
  | [] => .eq
  | (i, direction) :: rest =>
    (compareValues direction noneFirst (columnValue a i) (columnValue b i)).then
      (compareColumns noneFirst rest a b)

/-- The positions of the columns that sort keys name, or the first identifier that
names none. -/
def positions (p : Projection) : List SortKey → Except String (List (Nat × Direction))
  | [] => .ok []
  | key :: rest =>
    match Projection.indexOfIdentifier? p key.identifier with
    | some i => (positions p rest).map ((i, key.direction) :: ·)
    | none => .error key.identifier

end Sorting

end ObjectQuery
