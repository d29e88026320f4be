import ObjectQuery.Json.Value

/-!
# Writing JSON

Values are written **compactly**: no blanks, fields in the order of the value, and in
strings only what has to be escaped is escaped. Of the characters below U+0020 five
have a short escape and the others are written `\u00` and two lower-case
hexadecimal digits; everything from U+0020 on stands for itself, the quote and the
backslash excepted.
-/

namespace ObjectQuery

namespace Json

/-- A hexadecimal digit in lower case. -/
def hexDigit (n : Nat) : Char :=
  if n < 10 then Char.ofNat (48 + n) else Char.ofNat (87 + n)

/-- A character as it is written inside a string. -/
def escape (c : Char) : List Char :=
  if c = '"' then ['\\', '"']
  else if c = '\\' then ['\\', '\\']
  else if c = '\x08' then ['\\', 'b']
  else if c = '\x0c' then ['\\', 'f']
  else if c = '\n' then ['\\', 'n']
  else if c = '\r' then ['\\', 'r']
  else if c = '\t' then ['\\', 't']
  else if c.toNat < 32 then ['\\', 'u', '0', '0', hexDigit (c.toNat / 16), hexDigit (c.toNat % 16)]
  else [c]

/-- A string between quotes. -/
def quote (s : String) : List Char :=
  '"' :: (s.toList.flatMap escape ++ ['"'])

/-- Pieces one after another with a separator between each two. -/
def separated (separator : List Char) : List (List Char) → List Char
  | [] => []
  | [piece] => piece
  | piece :: rest => piece ++ separator ++ separated separator rest

end Json

namespace Value

open Json

mutual

/-- A value as it is written. -/
def chars : Value → List Char
  | .null => ['n', 'u', 'l', 'l']
  | .boolean true => ['t', 'r', 'u', 'e']
  | .boolean false => ['f', 'a', 'l', 's', 'e']
  | .number n => n.chars
  | .string s => quote s
  | .array items => '[' :: (separated [','] (itemChars items) ++ [']'])
  | .object fields => '{' :: (separated [','] (fieldChars fields) ++ ['}'])

/-- The elements of an array, each as it is written. -/
def itemChars : List Value → List (List Char)
  | [] => []
  | v :: rest => chars v :: itemChars rest

/-- The fields of an object, each as it is written. -/
def fieldChars : List (String × Value) → List (List Char)
  | [] => []
  | (name, v) :: rest => (quote name ++ ':' :: chars v) :: fieldChars rest

end

/-- A value as it is written, as a string. -/
def text (v : Value) : String :=
  String.ofList v.chars

end Value

end ObjectQuery
