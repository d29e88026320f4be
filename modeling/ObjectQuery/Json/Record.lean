import ObjectQuery.Json.Value

/-!
# Reading records

A record is a fixed list of named fields. It may be written as an object, in which
fields of other names are passed over and a name that comes twice is an error, or
**positionally** as an array of the field values in the order of the names, from
which fields may be left off the end. `slots?` reads both forms into one list with a
place for each name.

A choice among names is written as a string, or as an object whose only field has
that name. What that field may hold depends on the **place**: `null` anywhere, and
inside a script an empty object as well.
-/

namespace ObjectQuery

/-- Where a value is read: on its own, or as a part of a script. -/
inductive Place where
  | alone
  | inScript
deriving DecidableEq

namespace Record

/-! ### Fields -/

/-- The values of all fields of a name, in the order they are written. -/
def occurrences (fields : Fields) (name : String) : List Value :=
  (fields.filter fun field => field.1 == name).map Prod.snd

/-- The value of the field of a name, if there is one; a failure if there are several. -/
def slot? (fields : Fields) (name : String) : Option (Option Value) :=
  match occurrences fields name with
  | [] => some none
  | [v] => some (some v)
  | _ => none

/-- What a record has for each name, in the order of the names. -/
def slots? (names : List String) : Value → Option (List (Option Value))
  | .object fields => names.mapM (slot? fields)
  | .array items =>
    if items.length ≤ names.length then
      some (items.map some ++ List.replicate (names.length - items.length) none)
    else none
  | _ => none

/-- A field that has to be there. -/
def required {α : Type} (read? : Value → Option α) (slot : Option Value) : Option α :=
  slot.bind read?

/-- A field that takes a default when it is left out. -/
def optional {α : Type} (default : α) (read? : Value → Option α) : Option Value → Option α
  | none => some default
  | some v => read? v

/-! ### Common readers -/

/-- An array, every element read alike. -/
def listOf? {α : Type} (read? : Value → Option α) : Value → Option (List α)
  | .array items => items.mapM read?
  | _ => none

/-- A string or `null`. -/
def nullable? {α : Type} (read? : Value → Option α) : Value → Option (Option α)
  | .null => some none
  | v => (read? v).map some

/-- Whether a value may stand behind the name of a choice that holds nothing. -/
def isVoid (place : Place) : Value → Bool
  | .null => true
  | .object [] => place == .inScript
  | _ => false

/-- A choice among names. -/
def choice? {α : Type} (choices : List (String × α)) (place : Place) : Value → Option α
  | .string name => choices.lookup name
  | .object [(name, v)] => if isVoid place v then choices.lookup name else none
  | _ => none

end Record

end ObjectQuery
