import ObjectQuery.Number.Numeral
import ObjectQuery.Json.Value

/-!
# Reading JSON

A text is read in two steps. The first follows the **grammar** alone and gives a
`Document`: literals are well formed, but a number may still be too great and a
string may still name half a surrogate pair. The second, `Document.value?`, gives
the value, and fails where there is none. The steps are apart because a part of a
document that nobody asks for only has to be well formed: `Document.keeping` leaves
out such parts before values are formed.

Containers may be nested `maxDepth` deep.
-/

namespace ObjectQuery

/-- The syntax tree of a JSON text. A string has no content when one of its escapes
names half a surrogate pair. -/
inductive Document where
  | null
  | boolean (b : Bool)
  | number (n : Numeral)
  | string (content : Option String)
  | array (items : List Document)
  | object (fields : List (Option String × Document))
deriving Inhabited

namespace Document

/-! ### Characters -/

/-- The characters that may stand between the parts of a text. -/
def isBlank (c : Char) : Bool :=
  c == ' ' || c == '\n' || c == '\t' || c == '\r'

/-- What is left behind leading blanks. -/
def skipBlanks (cs : List Char) : List Char :=
  cs.dropWhile isBlank

/-- The number of a hexadecimal digit. -/
def hexValue? (c : Char) : Option Nat :=
  if Decimal.isDigit c then some (Decimal.digitValue c)
  else if 'a' ≤ c && c ≤ 'f' then some (c.toNat - 87)
  else if 'A' ≤ c && c ≤ 'F' then some (c.toNat - 55)
  else none

/-- The number that four hexadecimal digits spell. -/
def hexUnit? (a b c d : Char) : Option Nat := do
  return ((← hexValue? a) * 16 + (← hexValue? b)) * 256 + (← hexValue? c) * 16 + (← hexValue? d)

/-! ### Strings -/

/-- A piece of a string: a character, or a 16-bit unit from a numeric escape. -/
inductive Piece where
  | char (c : Char)
  | unit (n : Nat)

/-- The character that a one-letter escape stands for. -/
def shortEscape? : Char → Option Char
  | '"' => some '"'
  | '\\' => some '\\'
  | '/' => some '/'
  | 'b' => some '\x08'
  | 'f' => some '\x0c'
  | 'n' => some '\n'
  | 'r' => some '\r'
  | 't' => some '\t'
  | _ => none

/-- The pieces of a string behind its opening quote, last piece first, and what follows
its closing quote. -/
def stringPieces? (pieces : List Piece) : List Char → Option (List Piece × List Char)
  | '"' :: rest => some (pieces, rest)
  | '\\' :: 'u' :: a :: b :: c :: d :: rest =>
    match hexUnit? a b c d with
    | some n => stringPieces? (.unit n :: pieces) rest
    | none => none
  | '\\' :: c :: rest =>
    match shortEscape? c with
    | some e => stringPieces? (.char e :: pieces) rest
    | none => none
  | c :: rest => if c.toNat < 32 then none else stringPieces? (.char c :: pieces) rest
  | [] => none

/-- The characters that pieces spell. A high surrogate has to be followed by a low
one, which has to follow one. -/
def pieceChars? : List Piece → Option (List Char)
  | [] => some []
  | .char c :: rest => (pieceChars? rest).map (c :: ·)
  | .unit n :: rest =>
    if 0xDC00 ≤ n ∧ n < 0xE000 then none
    else if 0xD800 ≤ n ∧ n < 0xDC00 then
      match rest with
      | .unit m :: rest =>
        if 0xDC00 ≤ m ∧ m < 0xE000 then
          (pieceChars? rest).map (Char.ofNat (0x10000 + (n - 0xD800) * 0x400 + (m - 0xDC00)) :: ·)
        else none
      | _ => none
    else (pieceChars? rest).map (Char.ofNat n :: ·)

/-- A string behind its opening quote. -/
def string? (cs : List Char) : Option (Option String × List Char) :=
  (stringPieces? [] cs).map fun (pieces, rest) =>
    ((pieceChars? pieces.reverse).map String.ofList, rest)

/-! ### Numbers -/

/-- A run of digits and what follows it. -/
def digitRun (cs : List Char) : List Nat × List Char :=
  let (digits, rest) := cs.span Decimal.isDigit
  (digits.map Decimal.digitValue, rest)

/-- A run of at least one digit and what follows it. -/
def digitRun? (cs : List Char) : Option (List Nat × List Char) :=
  match digitRun cs with
  | ([], _) => none
  | found => some found

/-- The whole digits of a number: a zero leads only when it stands alone. -/
def wholeDigits? (cs : List Char) : Option (List Nat × List Char) :=
  match digitRun? cs with
  | some (0 :: _ :: _, _) => none
  | found => found

/-- The fraction of a number, if it has one. -/
def fraction? : List Char → Option (List Nat × List Char)
  | '.' :: cs => digitRun? cs
  | cs => some ([], cs)

/-- The digits of an exponent behind its letter, and whether it is negative. -/
def exponentDigits? : List Char → Option ((Bool × List Nat) × List Char)
  | '-' :: cs => (digitRun? cs).map fun (ds, rest) => ((true, ds), rest)
  | '+' :: cs => (digitRun? cs).map fun (ds, rest) => ((false, ds), rest)
  | cs => (digitRun? cs).map fun (ds, rest) => ((false, ds), rest)

/-- The exponent of a number, if it has one. -/
def exponent? : List Char → Option (Option (Bool × List Nat) × List Char)
  | 'e' :: cs | 'E' :: cs => (exponentDigits? cs).map fun (e, rest) => (some e, rest)
  | cs => some (none, cs)

/-- A number behind its sign. -/
def unsignedNumeral? (negative : Bool) (cs : List Char) : Option (Numeral × List Char) := do
  let (whole, cs) ← wholeDigits? cs
  let (fraction, cs) ← fraction? cs
  let (exponent, cs) ← exponent? cs
  return ({ negative, whole, fraction, exponent }, cs)

/-- A number. -/
def numeral? : List Char → Option (Numeral × List Char)
  | '-' :: cs => unsignedNumeral? true cs
  | cs => unsignedNumeral? false cs

/-! ### Documents -/

mutual

/-- A document at the head of a text, blanks in front of it skipped, and what follows
it. The fuel bounds the number of steps; the length of the text is always enough. -/
def head? : Nat → List Char → Option (Document × List Char)
  | 0, _ => none
  | fuel + 1, cs =>
    match skipBlanks cs with
    | 'n' :: 'u' :: 'l' :: 'l' :: rest => some (.null, rest)
    | 't' :: 'r' :: 'u' :: 'e' :: rest => some (.boolean true, rest)
    | 'f' :: 'a' :: 'l' :: 's' :: 'e' :: rest => some (.boolean false, rest)
    | '"' :: rest => (string? rest).map fun (s, rest) => (.string s, rest)
    | '[' :: rest =>
      match skipBlanks rest with
      | ']' :: rest => some (.array [], rest)
      | rest => (items? fuel rest).map fun (items, rest) => (.array items, rest)
    | '{' :: rest =>
      match skipBlanks rest with
      | '}' :: rest => some (.object [], rest)
      | rest => (fields? fuel rest).map fun (fields, rest) => (.object fields, rest)
    | rest => (numeral? rest).map fun (n, rest) => (.number n, rest)

/-- The elements of an array up to its closing bracket. -/
def items? : Nat → List Char → Option (List Document × List Char)
  | 0, _ => none
  | fuel + 1, cs =>
    match head? fuel cs with
    | none => none
    | some (item, rest) =>
      match skipBlanks rest with
      | ']' :: rest => some ([item], rest)
      | ',' :: rest => (items? fuel rest).map fun (items, rest) => (item :: items, rest)
      | _ => none

/-- The fields of an object up to its closing brace. -/
def fields? : Nat → List Char → Option (List (Option String × Document) × List Char)
  | 0, _ => none
  | fuel + 1, cs =>
    match field? fuel cs with
    | none => none
    | some (field, rest) =>
      match skipBlanks rest with
      | '}' :: rest => some ([field], rest)
      | ',' :: rest => (fields? fuel rest).map fun (fields, rest) => (field :: fields, rest)
      | _ => none

/-- One field of an object: its name, a colon and its document. -/
def field? : Nat → List Char → Option ((Option String × Document) × List Char)
  | 0, _ => none
  | fuel + 1, cs =>
    match skipBlanks cs with
    | '"' :: rest =>
      match string? rest with
      | none => none
      | some (name, rest) =>
        match skipBlanks rest with
        | ':' :: rest => (head? fuel rest).map fun (doc, rest) => ((name, doc), rest)
        | _ => none
    | _ => none

end

/-- The document that a whole text spells. -/
def ofChars? (cs : List Char) : Option Document :=
  match head? (2 * cs.length + 2) cs with
  | some (doc, rest) => if (skipBlanks rest).isEmpty then some doc else none
  | none => none

/-- The document that a whole text spells. -/
def parse? (text : String) : Option Document :=
  ofChars? text.toList

/-! ### Values -/

/-- How deep the containers of a document may be nested for it to have a value. -/
def maxDepth : Nat := 127

mutual

/-- The value of a document whose containers are nested at most `depth` deep, with the
fields of its objects as written. -/
def value? (depth : Nat) : Document → Option Value
  | .null => some .null
  | .boolean b => some (.boolean b)
  | .number n => n.number?.map .number
  | .string content => content.map .string
  | .array items =>
    if depth = 0 then none else (itemValues? (depth - 1) items).map .array
  | .object fields =>
    if depth = 0 then none else (fieldValues? (depth - 1) fields).map .object

/-- The values of the elements of an array. -/
def itemValues? (depth : Nat) : List Document → Option (List Value)
  | [] => some []
  | doc :: rest =>
    match value? depth doc with
    | none => none
    | some v => (itemValues? depth rest).map (v :: ·)

/-- The values of the fields of an object. -/
def fieldValues? (depth : Nat) : List (Option String × Document) → Option (List (String × Value))
  | [] => some []
  | (name, doc) :: rest =>
    match name, value? depth doc with
    | some name, some v => (fieldValues? depth rest).map ((name, v) :: ·)
    | _, _ => none

end

/-- Leaves out the fields whose names are not among those asked for. -/
def keeping (names : List String) : Document → Document
  | .object fields => .object (fields.filter fun (name, _) => name.all names.contains)
  | doc => doc

end Document

namespace Value

/-- The value that a text spells, with the fields of its objects as written. -/
def parseAsWritten? (text : String) : Option Value :=
  (Document.parse? text).bind (Document.value? Document.maxDepth)

/-- The value that a text spells, in normal form. -/
def parse? (text : String) : Option Value :=
  (parseAsWritten? text).map normalize

end Value

end ObjectQuery
