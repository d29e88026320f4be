import ObjectQuery.Number.Word
import ObjectQuery.Text.Decimal

/-!
# Addresses of settings

A layer gives its settings by name. A name with **steps** behind it is an address:
`a.b` is the entry `b` of the table `a`, and `a[0]` is an item of the list `a`. What is
written at an address makes a table or a list of the setting that the address begins
with. A text that is no address is a name as it stands.
-/

namespace ObjectQuery

/-- A step from a setting into a part of it. -/
inductive SettingStep where
  | entry (name : String)
  | item
deriving DecidableEq

/-- A setting, and the way from there to a part of it. -/
structure Address where
  name : String
  steps : List SettingStep := []
deriving DecidableEq

namespace Address

/-- Where the reading of an address stands. Characters are gathered last one first. -/
inductive Reading where
  | name (gathered : List Char)
  | item (gathered : List Char)
  | itemRead

/-- Whether a character may stand in a name. -/
def isNameChar (c : Char) : Bool :=
  c.isAlphanum || c == '_' || c == '-'

/-- Characters without the blanks in front of them. -/
def dropBlanks (cs : List Char) : List Char :=
  cs.dropWhile fun c => c == ' ' || c == '\t'

/-- Whether the text between two brackets is the position of an item, which may be
counted from the end. -/
def isPosition (cs : List Char) : Bool :=
  match dropBlanks (dropBlanks cs.reverse).reverse with
  | '+' :: _ => false
  | cs => (Decimal.integerIn? Word.minSigned64 Word.maxSigned64 cs).isSome

/-- The step of an entry whose name was gathered. -/
def entryStep (gathered : List Char) : SettingStep :=
  .entry (String.ofList gathered.reverse)

/-- Reads one character; steps are gathered last one first. -/
def advance (state : List SettingStep × Reading) (c : Char) :
    Option (List SettingStep × Reading) :=
  match state, c with
  | (_, .name []), '.' | (_, .name []), '[' => none
  | (steps, .name gathered), '.' => some (entryStep gathered :: steps, .name [])
  | (steps, .name gathered), '[' => some (entryStep gathered :: steps, .item [])
  | (steps, .name gathered), c =>
    if isNameChar c then some (steps, .name (c :: gathered)) else none
  | (steps, .item gathered), ']' =>
    if isPosition gathered.reverse then some (.item :: steps, .itemRead) else none
  | (steps, .item gathered), c => some (steps, .item (c :: gathered))
  | (steps, .itemRead), '.' => some (steps, .name [])
  | (steps, .itemRead), '[' => some (steps, .item [])
  | (_, .itemRead), _ => none

/-- The steps that were read, first one first, if the text may end there. -/
def finish : List SettingStep × Reading → Option (List SettingStep)
  | (_, .name []) => none
  | (steps, .name gathered) => some (entryStep gathered :: steps).reverse
  | (steps, .itemRead) => some steps.reverse
  | (_, .item _) => none

/-- The address that a text is. -/
def parse (s : String) : Address :=
  match (s.toList.foldlM advance ([], .name [])).bind finish with
  | some (.entry name :: steps) => { name, steps }
  | _ => { name := s }

end Address

end ObjectQuery
