import ObjectQuery.Condition.Evaluate

/-!
# Streams of rows

A stream is a finite sequence of rows, which is over once it has been read to its
end, however often it is asked again. It declares the projection of its rows, if
they have one, and carries the **tally** of the stage that made it: how many rows the
stage has seen, how many it has dealt with, and how many it has passed on.
-/

namespace ObjectQuery

/-- A row on its way through a pipeline. -/
inductive Row where
  | entry (e : Entry)
  | projected (r : ProjectedRow)

/-- What a stage has done with its rows. -/
structure Tally where
  seen : Nat := 0
  processed : Nat := 0
  emitted : Nat := 0
deriving DecidableEq

/-- A finite sequence of rows. -/
structure Stream where
  rows : List Row := []
  projection? : Option Projection := none
  tally : Tally := {}

namespace Stream

/-! ### Reading -/

/-- The next row, if the stream is not over, and what is left. -/
def next (s : Stream) : Option Row × Stream :=
  match s.rows with
  | [] => (none, s)
  | row :: rest => (some row, { s with rows := rest })

/-- Reads a number of times. -/
def read (s : Stream) : Nat → List (Option Row) × Stream
  | 0 => ([], s)
  | n + 1 =>
    let (row, rest) := s.next
    let (rows, rest) := rest.read n
    (row :: rows, rest)

/-! ### Making -/

/-- Counts a row as seen. -/
def see (s : Stream) : Stream :=
  { s with tally.seen := s.tally.seen + 1 }

/-- Counts a row as dealt with. -/
def process (s : Stream) : Stream :=
  { s with tally.processed := s.tally.processed + 1 }

/-- Passes a row on. -/
def emit (s : Stream) (row : Row) : Stream :=
  { s with rows := s.rows ++ [row], tally.emitted := s.tally.emitted + 1 }

/-- The stream of a source of entries, up to the first that the source fails to give. -/
def scan (source : List (Except Failure Entry)) : Stream :=
  go {} source
where
  /-- Goes through the source. -/
  go (s : Stream) : List (Except Failure Entry) → Stream
    | .ok e :: rest => go (s.see.process.emit (.entry e)) rest
    | _ => s

/-- The stream of rows at hand. An end mark among them counts as seen and dealt with,
but is not passed on. -/
def ofRows (projection? : Option Projection) (rows : List (Option Row)) : Stream :=
  rows.foldl
    (fun s row =>
      let s := s.see.process
      match row with
      | some row => s.emit row
      | none => s)
    { projection? }

end Stream

end ObjectQuery
