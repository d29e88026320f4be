import ObjectQuery.Store.NameSet

/-!
# Entries and targets

An **entry** names a stored object: a number of its own, where the object is found,
its schema and its type. A **target** is a choice of entries by schema and type, in
which an empty set leaves the choice open. A **strategy** says what indexing a
target fetches.
-/

namespace ObjectQuery

/-- The name of a stored object. -/
structure Entry where
  id : Nat
  uri : String
  schema : String
  type : String
deriving DecidableEq

/-- An entry as JSON. -/
def Entry.toValue (e : Entry) : Value :=
  .object
    [("id", .ofNat e.id), ("uri", .string e.uri), ("schema", .string e.schema),
     ("type", .string e.type)]

/-- A choice of entries by schema and type; an empty set means any. -/
structure Target where
  schemas : NameSet
  types : NameSet := .empty
deriving DecidableEq

namespace Target

/-- Whether a target leaves everything open. -/
def isAny (t : Target) : Bool :=
  t.schemas.isEmpty && t.types.isEmpty

/-- Whether an entry is among those of a target. -/
def covers (t : Target) (e : Entry) : Bool :=
  (t.schemas.isEmpty || t.schemas.contains e.schema)
    && (t.types.isEmpty || t.types.contains e.type)

end Target

/-- What indexing a target fetches. -/
inductive Strategy where
  /-- Nothing: entries come up as they are asked for. -/
  | onDemand
  /-- The entries of the target. -/
  | initial
  /-- The entries of the target and their objects. -/
  | full
deriving DecidableEq

namespace Strategy

/-- The names of the strategies. -/
def names : List (String × Strategy) :=
  [("on_demand", .onDemand), ("initial", .initial), ("full", .full)]

/-- The name of a strategy. -/
def name : Strategy → String
  | .onDemand => "on_demand"
  | .initial => "initial"
  | .full => "full"

/-- A strategy as it is written in an instruction. -/
def text : Strategy → String
  | .onDemand => "ON_DEMAND"
  | .initial => "INITIAL"
  | .full => "FULL"

/-- Whether indexing fetches anything. -/
def fetches : Strategy → Bool
  | .onDemand => false
  | _ => true

end Strategy

end ObjectQuery
