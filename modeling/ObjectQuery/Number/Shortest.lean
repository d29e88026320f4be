import ObjectQuery.Number.Nearest
import ObjectQuery.Text.Decimal

/-!
# The shortest text of a double

A double is written with **the fewest digits that read back to it**. All reals
between the midpoints to its two neighbours round to the double (the midpoints
themselves too when its significand is even), so the task is to find a decimal in
that interval: among the grids of multiples of a power of ten, the coarsest one
that has a point in the interval, and on it the point nearest to the double. The
search is exact integer arithmetic throughout.

How the digits are then laid out is decided in `text`: plain notation, always with
a fraction, when the first digit's exponent is between `-5` and `15`, and
otherwise one digit in front of the point and a signed exponent after it.
-/

namespace ObjectQuery.Double

/-! ### The interval of a double -/

/-- The reals that round to a double: its value and the two ends of the interval,
as numerators over one denominator. -/
structure Interval where
  low : Nat
  value : Nat
  high : Nat
  den : Nat
  closed : Bool

/-- The interval of a double that is not zero. Below a power of two the
neighbours are half as far away as above it. -/
def interval (d : Double) : Interval :=
  let m := d.significand
  let boundary := d.code % binade = 0 && binade < d.code
  let low := 4 * m - (if boundary then 1 else 2)
  let closed := m % 2 = 0
  match d.exponent - 2 with
  | .ofNat k => ⟨low <<< k, (4 * m) <<< k, (4 * m + 2) <<< k, 1, closed⟩
  | .negSucc k => ⟨low, 4 * m, 4 * m + 2, 1 <<< (k + 1), closed⟩

/-- The same interval in units of a power of ten. -/
def Interval.inUnitsOf (i : Interval) (power : Int) : Interval :=
  match power with
  | .ofNat k => { i with den := i.den * Decimal.tenTo k }
  | .negSucc k =>
    { i with
      low := i.low * Decimal.tenTo (k + 1)
      value := i.value * Decimal.tenTo (k + 1)
      high := i.high * Decimal.tenTo (k + 1) }

/-- Whether an integer lies in the interval. -/
def Interval.has (i : Interval) (n : Nat) : Bool :=
  if i.closed then i.low ≤ n * i.den && n * i.den ≤ i.high
  else i.low < n * i.den && n * i.den < i.high

/-- The integer of the interval that is nearest to the value, if it has any: one of
the value's two neighbours, the even one when both are equally near. -/
def Interval.nearest? (i : Interval) : Option Nat :=
  let below := i.value / i.den
  let above := below + 1
  match i.has below && below != 0, i.has above with
  | true, true => some (divNearestEven i.value i.den)
  | true, false => some below
  | false, true => some above
  | false, false => none

/-! ### Digits -/

/-- The shortest decimal of a double that is not zero, as `n * 10 ^ power`. The
search starts at a power of ten above the double and stops at the first grid that
reaches its interval, at most twenty powers further down. -/
def shortest (d : Double) : Nat × Int :=
  let i := d.interval
  let top : Int := ratioLog2 i.value i.den * 1233 / 4096 + 2
  let found := (List.range 24).findSome? fun (step : Nat) =>
    let power := top - step
    (i.inUnitsOf power).nearest?.map fun n => (n, power)
  found.getD (0, 0)

/-! ### Layout -/

/-- The characters of a run of zeros. -/
def zeros (n : Nat) : List Char :=
  List.replicate n '0'

/-- Digits in plain notation, `e` being the exponent of the first digit. -/
def plainChars (digits : List Char) (e : Int) : List Char :=
  match e with
  | .ofNat k =>
    let whole := digits.take (k + 1) ++ zeros (k + 1 - digits.length)
    let fraction := digits.drop (k + 1)
    whole ++ '.' :: (if fraction.isEmpty then ['0'] else fraction)
  | .negSucc k => '0' :: '.' :: zeros k ++ digits

/-- Digits in scientific notation, `e` being the exponent of the first digit. -/
def scientificChars (digits : List Char) (e : Int) : List Char :=
  let fraction := digits.drop 1
  digits.take 1 ++ (if fraction.isEmpty then [] else '.' :: fraction)
    ++ 'e' :: (if e < 0 then '-' else '+') :: Decimal.chars e.natAbs

/-- The magnitude of a double in its shortest form. -/
def magnitudeChars (d : Double) : List Char :=
  if d.isZero then ['0', '.', '0'] else
    let (n, power) := d.shortest
    let digits := Decimal.chars n
    let e : Int := power + digits.length - 1
    if -5 ≤ e ∧ e ≤ 15 then plainChars digits e else scientificChars digits e

/-- A double in its shortest form. -/
def chars (d : Double) : List Char :=
  if d.negative then '-' :: d.magnitudeChars else d.magnitudeChars

/-- A double in its shortest form, as a string. -/
def text (d : Double) : String :=
  String.ofList d.chars

end ObjectQuery.Double
