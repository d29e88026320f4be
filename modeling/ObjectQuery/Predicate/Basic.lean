import ObjectQuery.Discovery.Found
import ObjectQuery.Failure

/-!
# Predicates

A predicate tests one found value against its operands. Equality is **strict about
types** and is defined by the operand: `null` is matched by no value only, a string
only by a string, an object only by an object with the same fields. Equality
against a list operand is a failure; lists have predicates of their own, and those
compare element by element, an element of the none family matching nothing and a
failing comparison counting as unequal.
-/

namespace ObjectQuery

/-- A test of a found value. -/
inductive Predicate where
  | is (operand : Value)
  | isNot (operand : Value)
  | isIn (operands : List Value)
  | isEmpty
  | isPresent
  | contains (part : String)
  | startsWith (start : String)
  | endsWith (ending : String)
  | overlaps (fields : List (String × Value))
  | hasSize (size : UInt64)
  | listContains (operands : List Value)
  | containsExactly (operands : List Value)
  | containsExactlyInAnyOrder (operands : List Value)

namespace Predicate

/-! ### Equality with an operand -/

/-- Equality was asked for against a list. -/
def listOperand : Failure :=
  .comparison "equality against a list operand is not supported"

/-- Whether a found value equals an operand. -/
def equals (found : Found) : Value → Except Failure Bool
  | .null => match found with
    | .noValue => .ok true
    | _ => .ok false
  | .boolean b => match found with
    | .primitive (.boolean a) => .ok (a == b)
    | _ => .ok false
  | .string s => match found with
    | .primitive (.string a) => .ok (a == s)
    | _ => .ok false
  | .number n => match found with
    | .primitive (.number a) => .ok (a.matchesOperand n)
    | _ => .ok false
  | .object fields => match found with
    | .complex actual => .ok (Value.sameFields actual fields)
    | _ => .ok false
  | .array _ => .error listOperand

/-- Whether a found value equals one of several operands, tried in order: the first
that is equal, or that cannot be compared, decides. -/
def equalsAny (found : Found) : List Value → Except Failure Bool
  | [] => .ok false
  | operand :: rest =>
    match equals found operand with
    | .ok false => equalsAny found rest
    | decided => decided

/-! ### Elements of a list -/

/-- Whether an element of a list matches an operand. -/
def elementEquals (element : Found) (operand : Value) : Bool :=
  element.isSome && match equals element operand with
    | .ok holds => holds
    | .error _ => false

/-- Whether every operand is matched by some element. -/
def containsAll (elements : List Found) (operands : List Value) : Bool :=
  operands.all fun operand => elements.any fun element => elementEquals element operand

/-- Whether elements and operands match pairwise, in order. -/
def matchPairwise : List Found → List Value → Bool
  | [], [] => true
  | element :: elements, operand :: operands =>
    elementEquals element operand && matchPairwise elements operands
  | _, _ => false

/-! ### Parts of a string -/

/-- Whether characters occur next to each other in a text. -/
def occursIn (part : List Char) : List Char → Bool
  | [] => part.isEmpty
  | c :: cs => part.isPrefixOf (c :: cs) || occursIn part cs

/-- Applies a test to a found string; anything else fails it. -/
def onString (found : Found) (test : List Char → Bool) : Bool :=
  match found with
  | .primitive (.string s) => test s.toList
  | _ => false

/-- Applies a test to the elements of a found list; anything else fails it. -/
def onList (found : Found) (test : List Found → Bool) : Bool :=
  match found with
  | .list elements => test elements
  | _ => false

/-- Whether one of the fields asked for is among those that are there, with the same
value. -/
def overlap (actual asked : Fields) : Bool :=
  asked.any fun (name, v) => match Fields.get? actual name with
    | some w => w.same v
    | none => false

/-! ### The test -/

/-- Whether a found value passes a predicate. -/
def test (p : Predicate) (found : Found) : Except Failure Bool :=
  match p with
  | .is operand => equals found operand
  | .isNot operand => (equals found operand).map not
  | .isIn operands => equalsAny found operands
  | .isEmpty => .ok found.isNone
  | .isPresent => .ok found.isSome
  | .contains part => .ok (onString found fun s => occursIn part.toList s)
  | .startsWith start => .ok (onString found fun s => start.toList.isPrefixOf s)
  | .endsWith ending => .ok (onString found fun s => ending.toList.isSuffixOf s)
  | .overlaps fields => match found with
    | .complex actual => .ok (overlap actual fields)
    | _ => .ok false
  | .hasSize size => .ok (onList found fun elements => elements.length == size.toNat)
  | .listContains operands => .ok (onList found fun elements => containsAll elements operands)
  | .containsExactly operands => .ok (onList found fun elements => matchPairwise elements operands)
  | .containsExactlyInAnyOrder operands =>
    .ok (onList found fun elements =>
      elements.length == operands.length && containsAll elements operands)

/-! ### Text -/

/-- The word that stands for a predicate in its text. -/
def word : Predicate → String
  | .is _ | .isEmpty | .isPresent => "is"
  | .isNot _ => "not"
  | .isIn _ => "in"
  | .contains _ | .listContains _ => "contains"
  | .startsWith _ => "starts_with"
  | .endsWith _ => "ends_with"
  | .overlaps _ => "overlaps"
  | .hasSize _ => "has_size"
  | .containsExactly _ => "contains_exactly"
  | .containsExactlyInAnyOrder _ => "contains_exactly_in_any_order"

/-- Operands between parentheses. -/
def operandsText (operands : List Value) : String :=
  "( " ++ String.ofList (Json.separated [',', ' '] (Value.itemChars operands)) ++ " )"

/-- A predicate as it is written in an instruction. -/
def text (p : Predicate) : String :=
  match p with
  | .is operand | .isNot operand => p.word ++ " " ++ operand.text
  | .isIn [] => "in \x7b\x7b EMPTY SET \x7d\x7d"
  | .isIn operands | .listContains operands | .containsExactly operands
  | .containsExactlyInAnyOrder operands => p.word ++ " " ++ operandsText operands
  | .isEmpty => "is empty"
  | .isPresent => "is present"
  | .contains s | .startsWith s | .endsWith s => p.word ++ " " ++ (Value.string s).text
  | .overlaps fields => p.word ++ " " ++ (Value.object fields).text
  | .hasSize size => p.word ++ " " ++ Decimal.text size.toNat

end Predicate

end ObjectQuery
