import ObjectQuery.Number.Nearest
import ObjectQuery.Number.Shortest
import ObjectQuery.Number.Word

/-!
# Numbers of a JSON value

A number is an **integer** of 64 bits, signed or unsigned, or a **double**. The two
kinds stay apart: `1` and `1.0` are different numbers that are written differently.

Three relations compare them, and they are not the same relation.

* `same` is equality inside larger values: kinds have to agree, and doubles are
  equal numerically.
* `matchesOperand` is the test of a found number against an operand. A found double
  is compared as a double, in the total order; anything else is compared as an
  integer, for which a double loses its fraction and is held to 128 bits.
* `compare` is the order of sorting: exact when both numbers are signed 64-bit
  integers or both unsigned ones, and otherwise the total order of doubles.
-/

namespace ObjectQuery

/-- An integer that fits in 64 bits, signed or unsigned. -/
structure Integer where
  val : Int
  lower : Word.minSigned64 ≤ val
  upper : val ≤ Word.maxUnsigned64
deriving DecidableEq

/-- A number of a JSON value. -/
inductive Number where
  | integer (i : Integer)
  | double (d : Double)
deriving DecidableEq

namespace Integer

/-- An integer that is in range. -/
def ofInt? (i : Int) : Option Integer :=
  if h : Word.minSigned64 ≤ i ∧ i ≤ Word.maxUnsigned64 then some ⟨i, h.1, h.2⟩ else none

/-- A natural number that fits in 64 bits, or the greatest such in its place. -/
def ofNat (n : Nat) : Integer where
  val := min n Word.maxUnsigned64
  lower := by simp only [Word.minSigned64, Word.maxUnsigned64]; omega
  upper := by omega

/-- Whether a signed 64-bit word can hold the integer. -/
def isSigned (i : Integer) : Bool :=
  i.val ≤ Word.maxSigned64

/-- Whether an unsigned 64-bit word can hold the integer. -/
def isUnsigned (i : Integer) : Bool :=
  0 ≤ i.val

end Integer

namespace Number

/-- A natural number that fits in 64 bits as a number. -/
def ofNat (n : Nat) : Number :=
  .integer (Integer.ofNat n)

/-- An integer of 64 bits as a number; anything else becomes a double. -/
def ofInt (i : Int) : Number :=
  match Integer.ofInt? i with
  | some n => .integer n
  | none => .double (Double.ofInt i)

/-! ### Equality inside values -/

/-- Equality of numbers inside larger values. -/
def same : Number → Number → Bool
  | .integer a, .integer b => a == b
  | .double a, .double b => a.same b
  | _, _ => false

/-! ### Matching an operand -/

/-- Holds an integer to the range of a signed 128-bit word. -/
def clamp128 (i : Int) : Int :=
  max Word.minSigned128 (min i Word.maxSigned128)

/-- A number as a 128-bit integer: a double is rounded toward zero and held to range. -/
def toInteger : Number → Int
  | .integer i => i.val
  | .double d => clamp128 d.truncate

/-- The double nearest to a number. -/
def toDouble : Number → Double
  | .integer i => Double.ofInt i.val
  | .double d => d

/-- Whether a found number matches an operand. -/
def matchesOperand (found operand : Number) : Bool :=
  match found with
  | .double d => d.totalCompare operand.toDouble == .eq
  | .integer i => i.val == operand.toInteger

/-! ### Order -/

/-- The order of numbers when rows are sorted. -/
def compare (a b : Number) : Ordering :=
  match a, b with
  | .integer i, .integer j =>
    if i.isSigned && j.isSigned then Ord.compare i.val j.val
    else if i.isUnsigned && j.isUnsigned then Ord.compare i.val j.val
    else (Double.ofInt i.val).totalCompare (Double.ofInt j.val)
  | a, b => a.toDouble.totalCompare b.toDouble

/-! ### Text -/

/-- A number as it is written in a JSON text. -/
def chars : Number → List Char
  | .integer i => Decimal.integerChars i.val
  | .double d => d.chars

/-- A number as it is written in a JSON text, as a string. -/
def text (n : Number) : String :=
  String.ofList n.chars

end Number

end ObjectQuery
