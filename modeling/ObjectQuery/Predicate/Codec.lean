import ObjectQuery.Json.Record
import ObjectQuery.Predicate.Basic

/-!
# Predicates as JSON

A predicate is a record of an `op`, which names it, and a `value`, which holds its
operand. The two predicates without an operand have no `value`, though `null` is
taken in its place. In positional form both have to be there, and the predicate is
named by a string alone or, inside a script, by its number among the names.
-/

namespace ObjectQuery.Predicate

/-- The kinds of predicate, by what they hold. -/
inductive Kind where
  | is | isNot | isIn | isEmpty | isPresent | contains | startsWith | endsWith
  | overlaps | hasSize | listContains | containsExactly | containsExactlyInAnyOrder
deriving DecidableEq

/-- The name of each kind. -/
def names : List (String × Kind) :=
  [("is", .is), ("not", .isNot), ("in", .isIn), ("is_empty", .isEmpty),
   ("is_present", .isPresent), ("contains", .contains), ("starts_with", .startsWith),
   ("ends_with", .endsWith), ("overlaps", .overlaps), ("has_size", .hasSize),
   ("list_contains", .listContains), ("contains_exactly", .containsExactly),
   ("contains_exactly_in_any_order", .containsExactlyInAnyOrder)]

/-- A size that fits in an unsigned 64-bit word. -/
def size? (v : Value) : Option UInt64 :=
  v.natural?.map UInt64.ofNat

/-- The fields of an operand that is an object. -/
def fields? (v : Value) : Option Fields :=
  match v.normalize with
  | .object fields => some fields
  | _ => none

/-- Operands in an array. -/
def operands? (v : Value) : Option (List Value) :=
  Record.listOf? (fun operand => some operand.normalize) v

/-- The predicate of a kind with an operand, if there is one. -/
def ofKind? (kind : Kind) (operand : Option Value) : Option Predicate :=
  match kind with
  | .is => operand.map fun v => .is v.normalize
  | .isNot => operand.map fun v => .isNot v.normalize
  | .isIn => (Record.required operands? operand).map .isIn
  | .isEmpty => if operand.all (Record.isVoid .alone) then some .isEmpty else none
  | .isPresent => if operand.all (Record.isVoid .alone) then some .isPresent else none
  | .contains => (Record.required Value.string? operand).map .contains
  | .startsWith => (Record.required Value.string? operand).map .startsWith
  | .endsWith => (Record.required Value.string? operand).map .endsWith
  | .overlaps => (Record.required fields? operand).map .overlaps
  | .hasSize => (Record.required size? operand).map .hasSize
  | .listContains => (Record.required operands? operand).map .listContains
  | .containsExactly => (Record.required operands? operand).map .containsExactly
  | .containsExactlyInAnyOrder =>
    (Record.required operands? operand).map .containsExactlyInAnyOrder

/-- The kind that stands first in positional form. -/
def kindInFront? (place : Place) : Value → Option Kind
  | .string name => names.lookup name
  | v =>
    if place = .inScript then (v.natural?.bind (names[·]?)).map Prod.snd else none

/-- Reads a predicate. -/
def ofValue? (place : Place) : Value → Option Predicate
  | .array [op, operand] => (kindInFront? place op).bind fun kind => ofKind? kind (some operand)
  | .object fields =>
    match Record.slots? ["op", "value"] (.object fields) with
    | some [op, operand] =>
      (Record.required (Record.choice? names place) op).bind fun kind => ofKind? kind operand
    | _ => none
  | _ => none

/-- A predicate with an operand as JSON. -/
def record (op : String) (operand : Value) : Value :=
  .object [("op", .string op), ("value", operand)]

/-- A predicate as JSON. -/
def toValue : Predicate → Value
  | .is operand => record "is" operand
  | .isNot operand => record "not" operand
  | .isIn operands => record "in" (.array operands)
  | .isEmpty => .object [("op", .string "is_empty")]
  | .isPresent => .object [("op", .string "is_present")]
  | .contains part => record "contains" (.string part)
  | .startsWith start => record "starts_with" (.string start)
  | .endsWith ending => record "ends_with" (.string ending)
  | .overlaps fields => record "overlaps" (.object fields)
  | .hasSize size => record "has_size" (.ofNat size.toNat)
  | .listContains operands => record "list_contains" (.array operands)
  | .containsExactly operands => record "contains_exactly" (.array operands)
  | .containsExactlyInAnyOrder operands =>
    record "contains_exactly_in_any_order" (.array operands)

end ObjectQuery.Predicate
