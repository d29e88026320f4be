import ObjectQuery.Discovery.Found
import ObjectQuery.Json.Record

/-!
# Projections

A projection is a list of columns, each the path it shows, a type and perhaps an
alias. A column accepts the found values of its type; the none family fits in any
column. Columns are addressed in two ways: by **path**, and by **identifier**, for
which an alias goes before any path. Sort keys address columns by identifier.
-/

namespace ObjectQuery

/-! ### Column types -/

/-- What a column may hold. -/
inductive ColumnType where
  | string | number | boolean | temporal | list | object | any
deriving DecidableEq

namespace ColumnType

/-- The names of the column types. -/
def names : List (String × ColumnType) :=
  [("string", .string), ("number", .number), ("boolean", .boolean),
   ("temporal", .temporal), ("list", .list), ("object", .object), ("any", .any)]

/-- The name of a column type. -/
def name : ColumnType → String
  | .string => "string"
  | .number => "number"
  | .boolean => "boolean"
  | .temporal => "temporal"
  | .list => "list"
  | .object => "object"
  | .any => "any"

/-- Whether a found value may stand in a column of a type. Nothing is temporal. -/
def accepts (t : ColumnType) (found : Found) : Bool :=
  found.isNone || match t, found with
    | .any, _ => true
    | .string, .primitive (.string _) => true
    | .number, .primitive (.number _) => true
    | .boolean, .primitive (.boolean _) => true
    | .list, .list _ => true
    | .object, .complex _ => true
    | _, _ => false

end ColumnType

/-! ### Columns -/

/-- A column of a projection. -/
structure Column where
  path : String
  alias? : Option String := none
  type : ColumnType := .any
deriving DecidableEq

namespace Column

/-- What a column is called: its alias, or its path when it has none. -/
def identifier (c : Column) : String :=
  c.alias?.getD c.path

/-- Reads a column. -/
def ofValue? (place : Place) (v : Value) : Option Column :=
  match Record.slots? ["column_type", "path", "alias"] v with
  | some [type, path, alias?] => do
    let type ← Record.optional .any (Record.choice? ColumnType.names place) type
    let path ← Record.required Value.string? path
    let alias? ← Record.optional none (Record.nullable? Value.string?) alias?
    return { path, alias?, type }
  | _ => none

/-- A column as JSON. -/
def toValue (c : Column) : Value :=
  .object
    [("column_type", .string c.type.name), ("path", .string c.path),
     ("alias", .ofOption (c.alias?.map .string))]

end Column

/-! ### Projections -/

/-- A projection: its columns, in order. -/
abbrev Projection := List Column

namespace Projection

/-- The position of the first column that shows a path. -/
def indexOf? (p : Projection) (path : String) : Option Nat :=
  p.findIdx? fun c => c.path == path

/-- The position of the first column with an alias. -/
def indexOfAlias? (p : Projection) (name : String) : Option Nat :=
  p.findIdx? fun c => c.alias? == some name

/-- The position of the column that an identifier names: the first with that alias,
or else the first with that path. -/
def indexOfIdentifier? (p : Projection) (name : String) : Option Nat :=
  (indexOfAlias? p name).or (indexOf? p name)

/-- Reads a projection. -/
def ofValue? (place : Place) : Value → Option Projection :=
  Record.listOf? (Column.ofValue? place)

/-- A projection as JSON. -/
def toValue (p : Projection) : Value :=
  .array (p.map Column.toValue)

end Projection

end ObjectQuery
