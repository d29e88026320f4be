import ObjectQuery.Condition.Basic
import ObjectQuery.Predicate.Codec

/-!
# Conditions as JSON

A condition is an array of clauses, and a clause is a record of its relation and its
element. An element, and likewise a check, is an object with one field whose name
says which kind it is. A quantified check is a record too, but standing alone it is
read from an object only.
-/

namespace ObjectQuery

/-- The names of the relations. -/
def Relation.names : List (String × Relation) :=
  [("AND", .and), ("OR", .or)]

/-- The names of the quantifiers. -/
def Quantifier.names : List (String × Quantifier) :=
  [("any", .any), ("all", .all), ("none", .none)]

namespace Condition

/-! ### Reading -/

/-- Joins a relation and an element that were read apart. -/
def clause? (place : Place) (relation : Value) (element : Option Element) : Option Clause := do
  return ⟨← Record.choice? Relation.names place relation, ← element⟩

/-- Joins a path and a check that were read apart. -/
def assertion? (path : Value) (check : Option Check) : Option Element := do
  return .assertion (← path.string?) (← check)

/-- Joins a quantifier and a condition that were read apart. -/
def quantified? (place : Place) (quantifier : Value) (clauses : Option (List Clause)) :
    Option Check := do
  return .quantified (← Record.choice? Quantifier.names place quantifier) (← clauses)

mutual

/-- Reads a condition. -/
def ofValue? (place : Place) : Value → Option (List Clause)
  | .array items => clausesOf? place items
  | _ => none

/-- Reads the clauses of a condition. -/
def clausesOf? (place : Place) : List Value → Option (List Clause)
  | [] => some []
  | v :: rest =>
    match clauseOf? place v with
    | some clause => (clausesOf? place rest).map (clause :: ·)
    | none => none

/-- Reads a clause. -/
def clauseOf? (place : Place) : Value → Option Clause
  | .object fields =>
    match Record.slot? fields "relation", elementsIn place fields with
    | some (some relation), [element] => clause? place relation element
    | _, _ => none
  | .array [relation, v] => clause? place relation (elementOf? place v)
  | _ => none

/-- Reads the fields of a clause that hold its element. -/
def elementsIn (place : Place) : List (String × Value) → List (Option Element)
  | [] => []
  | (name, v) :: rest =>
    if name == "element" then elementOf? place v :: elementsIn place rest
    else elementsIn place rest

/-- Reads an element. -/
def elementOf? (place : Place) : Value → Option Element
  | .object [(name, v)] =>
    if name == "assertion" then assertionOf? place v
    else if name == "condition" then (ofValue? place v).map .condition
    else none
  | _ => none

/-- Reads an assertion. -/
def assertionOf? (place : Place) : Value → Option Element
  | .object fields =>
    match Record.slot? fields "path", checksIn place fields with
    | some (some path), [check] => assertion? path check
    | _, _ => none
  | .array [path, v] => assertion? path (checkOf? place v)
  | _ => none

/-- Reads the fields of an assertion that hold its check. -/
def checksIn (place : Place) : List (String × Value) → List (Option Check)
  | [] => []
  | (name, v) :: rest =>
    if name == "check" then checkOf? place v :: checksIn place rest
    else checksIn place rest

/-- Reads a check. -/
def checkOf? (place : Place) : Value → Option Check
  | .object [(name, v)] =>
    if name == "predicate" then (Predicate.ofValue? place v).map .predicate
    else if name == "quantified" then quantifiedOf? place v
    else none
  | _ => none

/-- Reads a quantified check. -/
def quantifiedOf? (place : Place) : Value → Option Check
  | .object fields =>
    match Record.slot? fields "quantifier", conditionsIn place fields with
    | some (some quantifier), [clauses] => quantified? place quantifier clauses
    | _, _ => none
  | .array [quantifier, v] =>
    if place = .inScript then quantified? place quantifier (ofValue? place v) else none
  | _ => none

/-- Reads the fields of a quantified check that hold its condition. -/
def conditionsIn (place : Place) : List (String × Value) → List (Option (List Clause))
  | [] => []
  | (name, v) :: rest =>
    if name == "condition" then ofValue? place v :: conditionsIn place rest
    else conditionsIn place rest

end

/-! ### Writing -/

/-- A relation as JSON. -/
def relationValue (r : Relation) : Value :=
  .string (match r with | .and => "AND" | .or => "OR")

/-- A quantifier as JSON. -/
def quantifierValue (q : Quantifier) : Value :=
  .string (match q with | .any => "any" | .all => "all" | .none => "none")

mutual

/-- An element as JSON. -/
def elementValue : Element → Value
  | .assertion path check =>
    .object [("assertion", .object [("path", .string path), ("check", checkValue check)])]
  | .condition clauses => .object [("condition", .array (clauseValues clauses))]

/-- A check as JSON. -/
def checkValue : Check → Value
  | .predicate p => .object [("predicate", p.toValue)]
  | .quantified q clauses =>
    .object [("quantified", .object
      [("quantifier", quantifierValue q), ("condition", .array (clauseValues clauses))])]

/-- Clauses as JSON, one by one. -/
def clauseValues : List Clause → List Value
  | [] => []
  | ⟨relation, element⟩ :: rest =>
    .object [("relation", relationValue relation), ("element", elementValue element)]
      :: clauseValues rest

end

/-- A condition as JSON. -/
def toValue (c : Condition) : Value :=
  .array (clauseValues c)

end Condition

end ObjectQuery
