import ObjectQuery.Discovery.Found
import ObjectQuery.Store.Entry

/-!
# Cells and result rows

A result row shows an entry and, under a title each, **cells**: texts marked as simple
or complex. Nothing found gives an empty simple cell, a primitive a simple one, and
an object or a list a complex one.
-/

namespace ObjectQuery

/-- A text in a result row. -/
structure Cell where
  isComplex : Bool
  text : String
deriving DecidableEq

namespace Cell

/-- The cell that shows a found value. -/
def ofFound : Found → Cell
  | .noValue => ⟨false, ""⟩
  | .notFound _ => ⟨false, ""⟩
  | .primitive p => ⟨false, p.text⟩
  | .complex fields => ⟨true, (Found.complex fields).text⟩
  | .list elements => ⟨true, (Found.list elements).text⟩

/-- A cell as JSON. -/
def toValue (c : Cell) : Value :=
  .object
    [("kind", .string (if c.isComplex then "complex" else "simple")), ("value", .string c.text)]

end Cell

/-- Cells under distinct titles, ascending. -/
abbrev Cells := List (String × Cell)

namespace Cells

/-- Puts a cell under a title; a cell that was there gives way. -/
def insert (cells : Cells) (title : String) (cell : Cell) : Cells :=
  match cells with
  | [] => [(title, cell)]
  | (t, c) :: rest =>
    if title < t then (title, cell) :: (t, c) :: rest
    else if title = t then (title, cell) :: rest
    else (t, c) :: insert rest title cell

/-- The cells of titles and found values, the last of a title staying. -/
def ofFound (pairs : List (String × Found)) : Cells :=
  pairs.foldl (fun cells (title, found) => Cells.insert cells title (Cell.ofFound found)) []

end Cells

/-- A row of a result. -/
structure ResultRow where
  entry : Entry
  cells : Cells
deriving DecidableEq

/-- A result row as JSON. -/
def ResultRow.toValue (r : ResultRow) : Value :=
  .object
    [("entry", r.entry.toValue),
     ("cells", .object (r.cells.map fun (title, cell) => (title, cell.toValue)))]

/-- A column of a result: the path it shows and its title. -/
structure ResultColumn where
  path : String
  title : String
deriving DecidableEq

end ObjectQuery
