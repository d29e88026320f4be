import ObjectQuery.Number.Basic

/-!
# Number literals

A literal is kept as it is written, in four parts: sign, whole digits, fraction and
exponent. Its number is an integer when it has neither fraction nor exponent and
fits in 64 bits, and a double otherwise; negative zero is a double too.

A double is read by **one multiplication**. The digits are gathered into a 64-bit
significand for as long as they fit, the position of the point and the exponent
give a power of ten, and the double of the one is multiplied or divided by the
double of the other. For up to 15 digits and moderate exponents this is the
nearest double; beyond that it may be a neighbour, and the digits that no longer
fit are dropped.
-/

namespace ObjectQuery

/-- A number literal, as it is written. Digits are numbers below ten. -/
structure Numeral where
  negative : Bool
  whole : List Nat
  fraction : List Nat := []
  /-- Whether the exponent is negative, and its digits. -/
  exponent : Option (Bool × List Nat) := none
deriving DecidableEq

namespace Numeral

/-! ### The significand -/

/-- Digits gathered so far, as `significand * 10 ^ exponent`; `full` once a digit did
not fit any more. -/
structure Gathered where
  significand : Nat
  exponent : Int
  full : Bool

/-- Appends a digit to a significand, if the result fits in 64 bits. -/
def appendDigit? (significand digit : Nat) : Option Nat :=
  let next := 10 * significand + digit
  if next ≤ Word.maxUnsigned64 then some next else none

/-- A digit in front of the point: one that does not fit, and every one after it,
only raises the exponent. -/
def Gathered.addWhole (g : Gathered) (digit : Nat) : Gathered :=
  match g.full, appendDigit? g.significand digit with
  | false, some s => { g with significand := s }
  | _, _ => { g with exponent := g.exponent + 1, full := true }

/-- A digit behind the point: one that does not fit, and every one after it, is
dropped. -/
def Gathered.addFraction (g : Gathered) (digit : Nat) : Gathered :=
  match g.full, appendDigit? g.significand digit with
  | false, some s => { g with significand := s, exponent := g.exponent - 1 }
  | _, _ => { g with full := true }

/-- The whole digits, gathered. -/
def gatherWhole (whole : List Nat) : Gathered :=
  whole.foldl Gathered.addWhole ⟨0, 0, false⟩

/-- All digits, gathered. Behind the point a full significand gets another chance:
a smaller digit may still fit. -/
def gather (n : Numeral) : Gathered :=
  n.fraction.foldl Gathered.addFraction { gatherWhole n.whole with full := false }

/-! ### Scaling -/

/-- The greatest power of ten that is a finite double. -/
def maxPower : Nat := 308

/-- The double nearest to a power of ten. -/
def powerOfTen (k : Nat) : Double :=
  (Double.ofRatio? false (Decimal.tenTo k) 1).getD Double.zero

/-- A double divided by a power of ten, by at most `maxPower` at a time. -/
def divPowerOfTen? (d : Double) (k : Nat) : Option Double :=
  if d.isZero then some d
  else if _ : maxPower < k then do
    divPowerOfTen? (← d.div? (powerOfTen maxPower)) (k - maxPower)
  else d.div? (powerOfTen k)
termination_by k
decreasing_by simp only [maxPower] at *; omega

/-- A double scaled by a power of ten, or nothing if the result is infinite. -/
def scale? (d : Double) : Int → Option Double
  | .ofNat k =>
    if k ≤ maxPower then d.mul? (powerOfTen k)
    else if d.isZero then some d
    else none
  | .negSucc k => divPowerOfTen? d (k + 1)

/-! ### The number of a literal -/

/-- Holds an exponent to the range of a signed 32-bit word. -/
def clampExponent (e : Int) : Int :=
  max Word.minSigned32 (min e Word.maxSigned32)

/-- The magnitude of a literal as a double, or nothing if it is too great. -/
def magnitude? (n : Numeral) : Option Double :=
  let g := n.gather
  let start := Double.ofInt g.significand
  match n.exponent with
  | none => scale? start g.exponent
  | some (isNegative, digits) =>
    let e := Decimal.value digits
    if (e : Int) ≤ Word.maxSigned32 then
      scale? start (clampExponent (if isNegative then g.exponent - e else g.exponent + e))
    else if g.significand = 0 ∨ isNegative then some Double.zero
    else none

/-- The double of a literal, or nothing if it is too great. -/
def double? (n : Numeral) : Option Double :=
  n.magnitude?.map (·.withNegative n.negative)

/-- The integer of a literal that has neither fraction nor exponent and fits in 64
bits. Negative zero is none. -/
def integer? (n : Numeral) : Option Integer :=
  if n.fraction.isEmpty && n.exponent.isNone then
    let m := Decimal.value n.whole
    if !n.negative then Integer.ofInt? m
    else if m = 0 then none
    else Integer.ofInt? (-m)
  else none

/-- The number of a literal, or nothing if it is too great for a double. -/
def number? (n : Numeral) : Option Number :=
  match n.integer? with
  | some i => some (.integer i)
  | none => n.double?.map .double

/-! ### The nearest double -/

/-- The double nearest to a literal, whatever its length, or nothing if that is
infinite. -/
def nearest? (n : Numeral) : Option Double :=
  let m := Decimal.value (n.whole ++ n.fraction)
  let e : Int := match n.exponent with
    | none => 0
    | some (isNegative, digits) =>
      if isNegative then -Decimal.value digits else Decimal.value digits
  let places := n.whole.length + n.fraction.length
  let power := e - n.fraction.length
  if m = 0 ∨ power + places < -400 then some { Double.zero with negative := n.negative }
  else match power with
    | .ofNat k => if k < 400 then Double.ofRatio? n.negative (m * Decimal.tenTo k) 1 else none
    | .negSucc k => Double.ofRatio? n.negative m (Decimal.tenTo (k + 1))

end Numeral

end ObjectQuery
