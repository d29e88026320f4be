import ObjectQuery.Json.Text

/-!
# Writing JSON over several lines

The elements of an array and the fields of an object each take a line of their own,
indented by two blanks a level; an empty container stays on one line.
-/

namespace ObjectQuery.Value

open Json

/-- A line break and the blanks of a level. -/
def lineBreak (level : Nat) : List Char :=
  '\n' :: List.replicate (2 * level) ' '

/-- Pieces between brackets, each on a line of its own. -/
def bracketed (level : Nat) (opening closing : Char) : List (List Char) → List Char
  | [] => [opening, closing]
  | pieces =>
    opening :: lineBreak (level + 1)
      ++ separated (',' :: lineBreak (level + 1)) pieces ++ lineBreak level ++ [closing]

mutual

/-- A value over several lines, its first line being at a level. -/
def prettyChars (level : Nat) : Value → List Char
  | .array items => bracketed level '[' ']' (prettyItems (level + 1) items)
  | .object fields => bracketed level '\x7b' '\x7d' (prettyFields (level + 1) fields)
  | v => v.chars

/-- The elements of an array, each over several lines. -/
def prettyItems (level : Nat) : List Value → List (List Char)
  | [] => []
  | v :: rest => prettyChars level v :: prettyItems level rest

/-- The fields of an object, each over several lines. -/
def prettyFields (level : Nat) : List (String × Value) → List (List Char)
  | [] => []
  | (name, v) :: rest =>
    (quote name ++ ':' :: ' ' :: prettyChars level v) :: prettyFields level rest

end

/-- A value over several lines, as a string. -/
def prettyText (v : Value) : String :=
  String.ofList (prettyChars 0 v)

end ObjectQuery.Value
