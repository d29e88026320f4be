import ObjectQuery.Json.Record

/-!
# Sets of names

A set of names is kept as a list that ascends by code point, so that each set has
one form: two sets with the same members are equal, and a set is always written
sorted.
-/

namespace ObjectQuery

/-- A finite set of names. -/
structure NameSet where
  toList : List String
  ascending : toList.Pairwise (· < ·)
deriving DecidableEq

namespace NameSet

/-- The set without members. -/
def empty : NameSet := ⟨[], .nil⟩

instance : Inhabited NameSet := ⟨empty⟩

/-- Puts a name in its place in an ascending list, unless it is there. -/
def insertSorted (name : String) : List String → List String
  | [] => [name]
  | n :: rest =>
    if name < n then name :: n :: rest
    else if name = n then n :: rest
    else n :: insertSorted name rest

theorem mem_insertSorted {name x : String} {names : List String} :
    x ∈ insertSorted name names ↔ x = name ∨ x ∈ names := by
  induction names with
  | nil => simp [insertSorted]
  | cons n rest ih =>
    rw [insertSorted]
    split
    · simp
    · split
      · next h => simp [h]
      · simp only [List.mem_cons, ih]
        constructor
        · rintro (h | h | h) <;> simp [h]
        · rintro (h | h | h) <;> simp [h]

theorem pairwise_insertSorted {name : String} {names : List String}
    (h : names.Pairwise (· < ·)) : (insertSorted name names).Pairwise (· < ·) := by
  induction names with
  | nil => simp [insertSorted]
  | cons n rest ih =>
    rw [List.pairwise_cons] at h
    rw [insertSorted]
    split
    · next hlt =>
      refine List.pairwise_cons.2 ⟨fun x hx => ?_, List.pairwise_cons.2 h⟩
      rcases List.mem_cons.1 hx with rfl | hx
      · exact hlt
      · exact Std.lt_trans hlt (h.1 x hx)
    · next hge =>
      split
      · exact List.pairwise_cons.2 h
      · next hne =>
        refine List.pairwise_cons.2 ⟨fun x hx => ?_, ih h.2⟩
        rcases mem_insertSorted.1 hx with rfl | hx
        · exact Std.lt_of_le_of_ne hge (Ne.symm hne)
        · exact h.1 x hx

/-- The set with one more member. -/
def insert (s : NameSet) (name : String) : NameSet :=
  ⟨insertSorted name s.toList, pairwise_insertSorted s.ascending⟩

/-- The set of the names in a list. -/
def ofList (names : List String) : NameSet :=
  names.foldl insert empty

/-- Whether a name is a member. -/
def contains (s : NameSet) (name : String) : Bool :=
  s.toList.contains name

/-- Whether the set has no members. -/
def isEmpty (s : NameSet) : Bool :=
  s.toList.isEmpty

/-- The members between brackets. -/
def text (s : NameSet) : String :=
  "[" ++ ", ".intercalate s.toList ++ "]"

/-- The set as JSON. -/
def toValue (s : NameSet) : Value :=
  Value.ofStrings s.toList

/-- Reads a set from an array of names. -/
def ofValue? (v : Value) : Option NameSet :=
  (Record.listOf? Value.string? v).map ofList

end NameSet

end ObjectQuery
