import ObjectQuery.Report.Basic
import ObjectQuery.Text.Decimal
import ObjectQuery.Text.DecimalDigit

/-!
# Positions in messages

A message may point at a place in a script by a **marker** `line N, column M`. Only the
first marker of a message counts. Its numbers may be written with the digits of any
script, but they are read as ASCII numerals of 32 bits: a first marker whose numbers
are not such numerals points nowhere, and no later marker makes up for it.
-/

namespace ObjectQuery

namespace Marker

/-- A run of at least one decimal digit and what follows it. -/
def digitRun? (cs : List Char) : Option (List Char × List Char) :=
  match cs.span Text.isDecimalDigit with
  | ([], _) => none
  | found => some found

/-- The digits of a marker at the head of a text. -/
def here? (cs : List Char) : Option (List Char × List Char) := do
  let rest ← "line ".toList.isPrefixOf? cs
  let (line, rest) ← digitRun? rest
  let rest ← ", column ".toList.isPrefixOf? rest
  let (column, _) ← digitRun? rest
  return (line, column)

/-- The digits of the first marker in a text. -/
def first? : List Char → Option (List Char × List Char)
  | [] => none
  | c :: cs => (here? (c :: cs)).or (first? cs)

/-- A 32-bit number in ASCII digits. -/
def number? (digits : List Char) : Option Nat :=
  (Decimal.natural? digits).filter fun n => n ≤ Word.maxUnsigned32

/-- The line and the column that the first marker of a message points at. -/
def position? (message : String) : Option (Nat × Nat) := do
  let (line, column) ← first? message.toList
  return (← number? line, ← number? column)

end Marker

/-- The report of a message from elsewhere. -/
def Report.ofMessage (message : String) : Report :=
  match Marker.position? message with
  | some (line, column) => .compilationError line column message
  | none => .unknownError message

end ObjectQuery
