import ObjectQuery.Discovery.Found

/-!
# Dotted paths

A path is split at its dots into **segments**, and the empty path means the value
itself. A segment steps into an object by name and into a list by position. A
segment that is no position, met by a list, **spreads**: the rest of the path, this
segment included, is followed on every element, and the answers are collected into
one list. A list that was itself collected in this way is spliced into the one
around it, while a list that is stored in the object stays whole; `Reached` carries
the mark that tells the two apart.
-/

namespace ObjectQuery

namespace Path

/-! ### Segments -/

/-- Splits characters at every dot; there is one piece more than there are dots. -/
def splitDots : List Char → List (List Char)
  | [] => [[]]
  | c :: cs =>
    if c = '.' then [] :: splitDots cs
    else match splitDots cs with
      | [] => [[c]]
      | piece :: pieces => (c :: piece) :: pieces

theorem splitDots_ne_nil (cs : List Char) : splitDots cs ≠ [] := by
  cases cs with
  | nil => simp [splitDots]
  | cons c cs =>
    rw [splitDots]
    split
    · simp
    · split <;> simp

/-- Splitting at a dot that joins two texts splits each of them. -/
theorem splitDots_append_dot (xs ys : List Char) :
    splitDots (xs ++ '.' :: ys) = splitDots xs ++ splitDots ys := by
  induction xs with
  | nil => simp [splitDots]
  | cons c xs ih =>
    rw [List.cons_append, splitDots, splitDots, ih]
    split
    · rfl
    · cases h : splitDots xs with
      | nil => exact absurd h (splitDots_ne_nil xs)
      | cons piece pieces => rfl

/-- The segments of a path. The empty path has none. -/
def segments (path : String) : List String :=
  if path.isEmpty then [] else (splitDots path.toList).map String.ofList

/-- The position that a segment names in a list: a signed 64-bit numeral. -/
def position? (segment : String) : Option Int :=
  Decimal.integerIn? Word.minSigned64 Word.maxSigned64 segment.toList

/-! ### Following a path -/

/-- What was reached, and whether it was collected by spreading over a list. -/
structure Reached where
  found : Found
  spread : Bool := false

/-- What the elements of a list contribute to the list collected from it. -/
def Reached.collected (r : Reached) : List Found :=
  match r.spread, r.found with
  | true, .list inner => inner
  | _, found => [found]

/-- Why a position in front of a list is not found. -/
def negativePosition (i : Int) : Found :=
  .notFound ("[" ++ Decimal.integerText i ++ "] is not a valid list index")

/-- Why a segment cannot be followed on a value without parts. -/
def terminated (segment : String) : Found :=
  .notFound ("path terminated early at '" ++ segment ++ "'")

mutual

/-- Follows segments on a value. -/
def walk : Value → List String → Reached
  | v, [] => { found := Found.ofValue v }
  | .null, _ :: _ => { found := .noValue }
  | .object fields, s :: rest => walkField fields s rest
  | .array items, s :: rest =>
    match position? s with
    | some i => if i < 0 then { found := negativePosition i } else walkItem items i.toNat rest
    | none => { found := .list (walkEach items (s :: rest)), spread := true }
  | _, s :: _ => { found := terminated s }

/-- Follows segments on the field of a name. -/
def walkField : List (String × Value) → String → List String → Reached
  | [], _, _ => { found := .noValue }
  | (n, v) :: fields, name, rest =>
    if name == n then walk v rest else walkField fields name rest

/-- Follows segments on the element at a position. -/
def walkItem : List Value → Nat → List String → Reached
  | [], _, _ => { found := .noValue }
  | v :: _, 0, rest => walk v rest
  | _ :: items, i + 1, rest => walkItem items i rest

/-- Follows segments on every element and collects what is reached. -/
def walkEach : List Value → List String → List Found
  | [], _ => []
  | v :: items, segments => (walk v segments).collected ++ walkEach items segments

end

/-- Stepping into an object is stepping into the field of that name. -/
theorem walkField_eq (fields : Fields) (name : String) (rest : List String) :
    walkField fields name rest =
      match Fields.get? fields name with
      | some v => walk v rest
      | none => { found := .noValue } := by
  induction fields with
  | nil => rfl
  | cons field fields ih =>
    obtain ⟨n, v⟩ := field
    rw [walkField, Fields.get?, List.lookup_cons]
    by_cases h : name == n
    · simp [h]
    · simp only [h, Bool.false_eq_true, if_false]
      exact ih

/-- Stepping into a list is stepping into the element at that position. -/
theorem walkItem_eq (items : List Value) (i : Nat) (rest : List String) :
    walkItem items i rest =
      match items[i]? with
      | some v => walk v rest
      | none => { found := .noValue } := by
  induction items generalizing i with
  | nil => simp [walkItem]
  | cons v items ih =>
    cases i with
    | zero => simp [walkItem]
    | succ i => simp [walkItem, ih]

/-- Spreading over a list collects from every element. -/
theorem walkEach_eq_flatMap (items : List Value) (segments : List String) :
    walkEach items segments = items.flatMap fun v => (walk v segments).collected := by
  induction items with
  | nil => simp [walkEach]
  | cons v items ih => rw [walkEach, ih, List.flatMap_cons]

end Path

/-! ### Resolving -/

/-- What a path finds on a value. -/
def Value.resolve (v : Value) (path : String) : Found :=
  (Path.walk v (Path.segments path)).found

/-- What a path finds on something found before. What was not found stays so. -/
def Found.resolve (f : Found) (path : String) : Found :=
  if path.isEmpty then f
  else match f.toValue? with
    | some v => v.resolve path
    | none => f

theorem Path.segments_empty : Path.segments "" = [] := rfl

/-- The empty path finds the value itself. -/
theorem Value.resolve_empty (v : Value) : v.resolve "" = Found.ofValue v := by
  rw [Value.resolve, Path.segments_empty]
  cases v <;> rfl

/-- The empty path finds what it is looked up on. -/
theorem Found.resolve_empty (f : Found) : f.resolve "" = f := by
  rw [resolve]
  rfl

/-- A path finds on a value what it finds on the value as it is found. -/
theorem Found.resolve_ofValue (v : Value) (path : String) :
    (ofValue v).resolve path = v.resolve path := by
  rw [resolve, toValue?_ofValue]
  split
  · next hempty =>
    rw [String.isEmpty_iff.1 hempty, Value.resolve_empty]
  · rfl

end ObjectQuery
