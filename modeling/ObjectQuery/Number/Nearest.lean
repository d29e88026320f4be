import ObjectQuery.Number.Double

/-!
# The double nearest to a ratio

Every arithmetic step on doubles is an exact step on integers followed by **one
rounding**: to the nearest double, and to the one with the even significand when
two are equally near. Since the code of a double is its exponent field in front of
its fraction field, a fraction that rounds up to the next power of two carries
into the exponent by plain addition; no case is needed for it.
-/

namespace ObjectQuery.Double

/-! ### Rounding to an integer -/

/-- The quotient rounded to the nearest integer, a half going to the even neighbour. -/
def divNearestEven (num den : Nat) : Nat :=
  let q := num / den
  let r := num % den
  if 2 * r < den then q
  else if den < 2 * r then q + 1
  else q + q % 2

/-- The greatest power of two that a positive ratio reaches, as its exponent. -/
def ratioLog2 (num den : Nat) : Int :=
  let e : Int := (num.log2 : Int) - den.log2
  let reached : Bool := match e with
    | .ofNat k => den <<< k ≤ num
    | .negSucc k => den ≤ num <<< (k + 1)
  if reached then e else e - 1

/-! ### Rounding to a double -/

/-- The code of the double nearest to a ratio; at least `codeLimit` when that
double would be infinite. The unit is the distance between neighbouring doubles
of that magnitude. -/
def nearestCode (num den : Nat) : Nat :=
  if num = 0 then 0 else
    let unit : Int := max (-1074) (ratioLog2 num den - 52)
    let steps := match unit with
      | .ofNat k => divNearestEven num (den <<< k)
      | .negSucc k => divNearestEven (num <<< (k + 1)) den
    (unit + 1074).toNat * binade + steps

/-- A sign and a code, unless the code is past the finite ones. -/
def ofCode? (negative : Bool) (code : Nat) : Option Double :=
  if h : code < codeLimit then some ⟨negative, code, h⟩ else none

/-- The double nearest to `± num / den`, or nothing if that is infinite. -/
def ofRatio? (negative : Bool) (num den : Nat) : Option Double :=
  ofCode? negative (nearestCode num den)

/-- The double nearest to an integer, held to the largest finite one. -/
def ofInt (i : Int) : Double where
  negative := i < 0
  code := min (nearestCode i.natAbs 1) (codeLimit - 1)
  code_lt := by
    have : 0 < codeLimit := by decide
    omega

/-- Positive zero. -/
def zero : Double := ⟨false, 0, by decide⟩

/-- The same magnitude with the sign asked for. -/
def withNegative (d : Double) (negative : Bool) : Double :=
  { d with negative }

/-! ### Arithmetic -/

/-- A magnitude as a ratio of naturals. -/
def magnitude (d : Double) : Nat × Nat :=
  match d.exponent with
  | .ofNat k => (d.significand <<< k, 1)
  | .negSucc k => (d.significand, 1 <<< (k + 1))

/-- The product, rounded once. -/
def mul? (a b : Double) : Option Double :=
  ofRatio? (a.negative != b.negative)
    (a.magnitude.1 * b.magnitude.1) (a.magnitude.2 * b.magnitude.2)

/-- The quotient by a double that is not zero, rounded once. -/
def div? (a b : Double) : Option Double :=
  ofRatio? (a.negative != b.negative)
    (a.magnitude.1 * b.magnitude.2) (a.magnitude.2 * b.magnitude.1)

end ObjectQuery.Double
