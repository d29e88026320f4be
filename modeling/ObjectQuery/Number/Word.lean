/-!
# Machine words

The least and the greatest integers that words of 32, 64 and 128 bits hold.
-/

namespace ObjectQuery.Word

/-- The least integer of a signed 32-bit word. -/
def minSigned32 : Int := -2147483648

/-- The greatest integer of a signed 32-bit word. -/
def maxSigned32 : Int := 2147483647

/-- The greatest integer of an unsigned 32-bit word. -/
def maxUnsigned32 : Nat := 4294967295

/-- The least integer of a signed 64-bit word. -/
def minSigned64 : Int := -9223372036854775808

/-- The greatest integer of a signed 64-bit word. -/
def maxSigned64 : Int := 9223372036854775807

/-- The greatest integer of an unsigned 64-bit word. -/
def maxUnsigned64 : Nat := 18446744073709551615

/-- The least integer of a signed 128-bit word. -/
def minSigned128 : Int := -170141183460469231731687303715884105728

/-- The greatest integer of a signed 128-bit word. -/
def maxSigned128 : Int := 170141183460469231731687303715884105727

end ObjectQuery.Word
