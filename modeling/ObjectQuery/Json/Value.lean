import ObjectQuery.Number.Basic

/-!
# JSON values

An object is a list of named fields. In a value that is stored, compared or written
the names are distinct and ascend by code point; `Value.normalize` brings any
value into that form, the last of several fields of one name being the one that
stays. A value just read from a text has its fields **as written**, so that a
reader of records can still see a name that comes twice.
-/

namespace ObjectQuery

/-- A JSON value. -/
inductive Value where
  | null
  | boolean (b : Bool)
  | number (n : Number)
  | string (s : String)
  | array (items : List Value)
  | object (fields : List (String × Value))
deriving Inhabited

/-- The named fields of an object. -/
abbrev Fields := List (String × Value)

namespace Fields

/-- The field of a name. -/
def get? (fields : Fields) (name : String) : Option Value :=
  List.lookup name fields

/-- Puts a field in its place among fields that ascend by name. A field of the same
name gives way. -/
def insert (fields : Fields) (name : String) (v : Value) : Fields :=
  match fields with
  | [] => [(name, v)]
  | (n, w) :: rest =>
    if name < n then (name, v) :: (n, w) :: rest
    else if name = n then (name, v) :: rest
    else (n, w) :: insert rest name v

/-- The fields in ascending order of their names, the last of a name staying. -/
def sort (fields : Fields) : Fields :=
  fields.foldl (fun sorted (name, v) => Fields.insert sorted name v) []

end Fields

namespace Value

/-! ### Normal form -/

mutual

/-- The value with the fields of every object in ascending order and without repeats. -/
def normalize : Value → Value
  | .array items => .array (normalizeItems items)
  | .object fields => .object (Fields.sort (normalizeFields fields))
  | v => v

/-- Normalizes every element of an array. -/
def normalizeItems : List Value → List Value
  | [] => []
  | v :: rest => normalize v :: normalizeItems rest

/-- Normalizes the value of every field. -/
def normalizeFields : List (String × Value) → List (String × Value)
  | [] => []
  | (name, v) :: rest => (name, normalize v) :: normalizeFields rest

end

/-! ### Sameness -/

mutual

/-- Equality of values: numbers of different kinds are different, and doubles are
equal numerically. -/
def same : Value → Value → Bool
  | .null, .null => true
  | .boolean a, .boolean b => a == b
  | .number a, .number b => a.same b
  | .string a, .string b => a == b
  | .array as, .array bs => sameItems as bs
  | .object as, .object bs => sameFields as bs
  | _, _ => false

/-- Equality of arrays, element by element. -/
def sameItems : List Value → List Value → Bool
  | [], [] => true
  | a :: as, b :: bs => same a b && sameItems as bs
  | _, _ => false

/-- Equality of objects in normal form, field by field. -/
def sameFields : List (String × Value) → List (String × Value) → Bool
  | [], [] => true
  | (m, a) :: as, (n, b) :: bs => m == n && same a b && sameFields as bs
  | _, _ => false

end

/-! ### Building values -/

/-- A natural number that fits in 64 bits as a value. -/
def ofNat (n : Nat) : Value :=
  .number (Number.ofNat n)

/-- An integer as a value. -/
def ofInt (i : Int) : Value :=
  .number (Number.ofInt i)

/-- An array of strings. -/
def ofStrings (ss : List String) : Value :=
  .array (ss.map .string)

/-- A value or `null`. -/
def ofOption (v : Option Value) : Value :=
  v.getD .null

/-! ### Looking at values -/

/-- The field of a name, if the value is an object that has one. -/
def field? (name : String) : Value → Option Value
  | .object fields => Fields.get? fields name
  | _ => none

/-- The elements of an array. -/
def items? : Value → Option (List Value)
  | .array items => some items
  | _ => none

/-- The text of a string. -/
def string? : Value → Option String
  | .string s => some s
  | _ => none

/-- A truth value. -/
def boolean? : Value → Option Bool
  | .boolean b => some b
  | _ => none

/-- An integer; a double is none, even one without a fraction. -/
def integer? : Value → Option Int
  | .number (.integer i) => some i.val
  | _ => none

/-- An integer that is not negative. -/
def natural? (v : Value) : Option Nat :=
  v.integer?.bind fun i => if 0 ≤ i then some i.toNat else none

end Value

end ObjectQuery
