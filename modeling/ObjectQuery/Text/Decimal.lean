/-!
# Decimal numerals

A number is written as its decimal digits, the most significant first and without
a leading zero. `digits` takes a number apart, `value` puts a list of digits
together, and `value_digits` says that nothing is lost on the way. Reading is more
liberal than writing: any run of ASCII digits is a numeral, whatever zeros lead
it, and an **integer** may carry one sign in front.
-/

namespace ObjectQuery.Decimal

/-! ### Digits -/

/-- Whether a character is one of the ten ASCII digits. -/
def isDigit (c : Char) : Bool :=
  '0' ≤ c && c ≤ '9'

/-- The number that an ASCII digit stands for. -/
def digitValue (c : Char) : Nat :=
  c.toNat - 48

/-- The ASCII digit that stands for a number below ten. -/
def digitChar (d : Nat) : Char :=
  Char.ofNat (48 + d)

/-- The digits of a number, the most significant first. -/
def digits (n : Nat) : List Nat :=
  if n < 10 then [n] else digits (n / 10) ++ [n % 10]

/-- The number that a list of digits denotes; no digits denote zero. -/
def value (ds : List Nat) : Nat :=
  ds.foldl (fun n d => 10 * n + d) 0

@[simp] theorem value_nil : value [] = 0 := rfl

@[simp] theorem value_append_singleton (ds : List Nat) (d : Nat) :
    value (ds ++ [d]) = 10 * value ds + d := by
  simp [value, List.foldl_append]

theorem digits_of_lt {n : Nat} (h : n < 10) : digits n = [n] := by
  rw [digits, if_pos h]

theorem digits_of_le {n : Nat} (h : 10 ≤ n) : digits n = digits (n / 10) ++ [n % 10] := by
  rw [digits, if_neg (by omega)]

/-- The digits of a number denote that number. -/
theorem value_digits (n : Nat) : value (digits n) = n := by
  induction n using Nat.strongRecOn with
  | _ n ih =>
    by_cases h : n < 10
    · simp [digits_of_lt h, value]
    · rw [digits_of_le (by omega), value_append_singleton, ih (n / 10) (by omega)]
      omega

/-- Every digit is below ten. -/
theorem lt_ten_of_mem_digits {n d : Nat} (h : d ∈ digits n) : d < 10 := by
  induction n using Nat.strongRecOn with
  | _ n ih =>
    by_cases hn : n < 10
    · rw [digits_of_lt hn] at h
      simp at h
      omega
    · rw [digits_of_le (by omega), List.mem_append] at h
      rcases h with h | h
      · exact ih (n / 10) (by omega) h
      · simp at h
        omega

/-- A power of ten. -/
def tenTo (k : Nat) : Nat :=
  Nat.pow 10 k

/-! ### Writing -/

/-- A number in decimal. -/
def chars (n : Nat) : List Char :=
  (digits n).map digitChar

/-- An integer in decimal, with a minus sign when it is negative. -/
def integerChars (i : Int) : List Char :=
  if i < 0 then '-' :: chars i.natAbs else chars i.natAbs

/-- A number in decimal, as a string. -/
def text (n : Nat) : String :=
  String.ofList (chars n)

/-- An integer in decimal, as a string. -/
def integerText (i : Int) : String :=
  String.ofList (integerChars i)

/-! ### Reading -/

/-- The number that a non-empty run of ASCII digits denotes. -/
def natural? (cs : List Char) : Option Nat :=
  if !cs.isEmpty && cs.all isDigit then some (value (cs.map digitValue)) else none

/-- A numeral that may have a plus sign in front. -/
def unsigned? : List Char → Option Nat
  | '+' :: cs => natural? cs
  | cs => natural? cs

/-- A numeral that may have a plus or a minus sign in front. -/
def integer? : List Char → Option Int
  | '-' :: cs => (natural? cs).map fun n => -(n : Int)
  | cs => (unsigned? cs).map Int.ofNat

/-- A numeral whose integer lies between the given bounds, both included. -/
def integerIn? (lo hi : Int) (cs : List Char) : Option Int :=
  (integer? cs).filter fun i => lo ≤ i && i ≤ hi

/-- A numeral whose number is at most `hi`. -/
def unsignedUpTo? (hi : Nat) (cs : List Char) : Option Nat :=
  (unsigned? cs).filter fun n => n ≤ hi

end ObjectQuery.Decimal
