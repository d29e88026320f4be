import ObjectQuery.Json.Text

/-!
# What a path finds

Looking a path up on an object always gives an answer, and the answer tells apart
two ways of finding nothing: **no value**, when the path can be followed but nothing
is there, and **not found**, when it cannot be followed, with the reason. Both
belong to the *none family* (`Found.isNone`). Anything else is a primitive, a
complex value (an object) or a list of what was found element by element.
-/

namespace ObjectQuery

/-- A value without parts. -/
inductive Primitive where
  | boolean (b : Bool)
  | number (n : Number)
  | string (s : String)

namespace Primitive

/-- Booleans come before numbers, and numbers before strings. -/
def rank : Primitive → Nat
  | .boolean _ => 0
  | .number _ => 1
  | .string _ => 2

/-- The order of primitives: by value within a kind, by rank between kinds. -/
def compare : Primitive → Primitive → Ordering
  | .boolean a, .boolean b => Ord.compare a b
  | .number a, .number b => a.compare b
  | .string a, .string b => Ord.compare a b
  | a, b => Ord.compare a.rank b.rank

/-- The JSON form of a primitive. -/
def toValue : Primitive → Value
  | .boolean b => .boolean b
  | .number n => .number n
  | .string s => .string s

/-- A primitive as it is shown: a string bare, anything else as in JSON. -/
def text : Primitive → String
  | .boolean b => if b then "true" else "false"
  | .number n => n.text
  | .string s => s

end Primitive

/-- What a path finds. -/
inductive Found where
  /-- The path can be followed, and nothing is there. -/
  | noValue
  /-- The path cannot be followed. -/
  | notFound (reason : String)
  | primitive (p : Primitive)
  | complex (fields : List (String × Value))
  | list (elements : List Found)
deriving Inhabited

namespace Found

/-- Whether nothing was found, for either reason. -/
def isNone : Found → Bool
  | .noValue => true
  | .notFound _ => true
  | _ => false

/-- Whether something was found. -/
def isSome (f : Found) : Bool :=
  !f.isNone

/-- Whether the path could not be followed. -/
def isNotFound : Found → Bool
  | .notFound _ => true
  | _ => false

/-! ### Between found values and JSON -/

mutual

/-- A JSON value as it is found. -/
def ofValue : Value → Found
  | .null => .noValue
  | .boolean b => .primitive (.boolean b)
  | .number n => .primitive (.number n)
  | .string s => .primitive (.string s)
  | .array items => .list (ofValues items)
  | .object fields => .complex fields

/-- JSON values as they are found, one by one. -/
def ofValues : List Value → List Found
  | [] => []
  | v :: rest => ofValue v :: ofValues rest

end

theorem ofValues_eq_map (vs : List Value) : ofValues vs = vs.map ofValue := by
  induction vs with
  | nil => rfl
  | cons v rest ih => rw [ofValues, ih, List.map_cons]

mutual

/-- The JSON form of a found value; what was not found has none, but inside a list it
stands as `null`. -/
def toValue? : Found → Option Value
  | .noValue => some .null
  | .notFound _ => none
  | .primitive p => some p.toValue
  | .complex fields => some (.object fields)
  | .list elements => some (.array (elementValues elements))

/-- The JSON forms of the elements of a list. -/
def elementValues : List Found → List Value
  | [] => []
  | f :: rest => (toValue? f).getD .null :: elementValues rest

end

theorem elementValues_eq_map (fs : List Found) :
    elementValues fs = fs.map fun f => f.toValue?.getD .null := by
  induction fs with
  | nil => rfl
  | cons f rest ih => rw [elementValues, ih, List.map_cons]

mutual

/-- A value that is found as it stands comes back from its found form. -/
theorem toValue?_ofValue (v : Value) : (ofValue v).toValue? = some v := by
  cases v with
  | null => rfl
  | boolean b => rfl
  | number n => rfl
  | string s => rfl
  | array items => rw [ofValue, toValue?, elementValues_ofValues]
  | object fields => rfl

theorem elementValues_ofValues (vs : List Value) : elementValues (ofValues vs) = vs := by
  cases vs with
  | nil => rfl
  | cons v rest =>
    rw [ofValues, elementValues, toValue?_ofValue, elementValues_ofValues, Option.getD_some]

end

/-! ### Text -/

/-- A found value as it is shown: primitives bare, objects and lists as JSON. -/
def text : Found → String
  | .noValue => ""
  | .notFound reason => "<not found: " ++ reason ++ ">"
  | .primitive p => p.text
  | .complex fields => (Value.object fields).text
  | .list elements => (Value.array (elementValues elements)).text

end Found

end ObjectQuery
