/-!
# Finite doubles

A finite IEEE double is a sign and a **code**, the number that its remaining 63
bits spell: the exponent field in front of the fraction field. Codes grow with
the magnitude they stand for, so the total order of doubles is an order on codes,
and the next double is the next code. What a code stands for is read off as
`significand * 2 ^ exponent`, both exact.

Infinities and not-a-number have no place here: a number that comes from text is
finite or is not read at all.
-/

namespace ObjectQuery

/-- How many doubles there are from one power of two to the next: the fraction field
has 52 bits. -/
def Double.binade : Nat := 4503599627370496

/-- The first code that no finite double has. -/
def Double.codeLimit : Nat := 2047 * Double.binade

/-- A finite double: its sign, and its exponent and fraction fields as one number. -/
structure Double where
  negative : Bool
  code : Nat
  code_lt : code < Double.codeLimit
deriving DecidableEq

namespace Double

/-! ### What a double stands for -/

/-- The integer that the fraction field stands for, with the implicit leading bit
of a normal double. -/
def significand (d : Double) : Nat :=
  if d.code < binade then d.code else d.code % binade + binade

/-- The power of two by which the significand is scaled. -/
def exponent (d : Double) : Int :=
  if d.code < binade then -1074 else (d.code / binade : Nat) - 1075

/-- The integer part of the magnitude. -/
def wholePart (d : Double) : Nat :=
  match d.exponent with
  | .ofNat k => d.significand <<< k
  | .negSucc k => d.significand >>> (k + 1)

/-- The integer nearest to the magnitude, a half going away from zero. -/
def roundedPart (d : Double) : Nat :=
  match d.exponent with
  | .ofNat k => d.significand <<< k
  | .negSucc k => (d.significand + (1 <<< k)) >>> (k + 1)

/-- Gives a magnitude the sign of a double. -/
def withSign (d : Double) (magnitude : Nat) : Int :=
  if d.negative then -(magnitude : Int) else magnitude

/-- The value without its fraction: rounded toward zero, exactly. -/
def truncate (d : Double) : Int :=
  d.withSign d.wholePart

/-- The value rounded to the nearest integer, a half going away from zero. -/
def round (d : Double) : Int :=
  d.withSign d.roundedPart

/-- Both zeros are zero. -/
def isZero (d : Double) : Bool :=
  d.code == 0

/-! ### Order and sameness -/

/-- The place of a double in the **total order**, in which negative zero comes
right before positive zero. -/
def place (d : Double) : Int :=
  if d.negative then -(d.code : Int) - 1 else d.code

/-- Compares two doubles in the total order. -/
def totalCompare (a b : Double) : Ordering :=
  compare a.place b.place

/-- Whether two doubles are numerically equal: the two zeros are. -/
def same (a b : Double) : Bool :=
  a.code == b.code && (a.negative == b.negative || a.isZero)

/-- Different doubles have different places. -/
theorem place_injective {a b : Double} (h : a.place = b.place) : a = b := by
  obtain ⟨na, ca, ha⟩ := a
  obtain ⟨nb, cb, hb⟩ := b
  simp only [place] at h
  cases na <;> cases nb <;> simp at h ⊢ <;> omega

end Double

end ObjectQuery
