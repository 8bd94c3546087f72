/-!
# Integers of a fixed width

The ranges of signed integers and of words with 32 and 64 bits.
-/

namespace FlowTree

/-- `-2 ^ 31`. -/
def minInt32 : Int := -2147483648

/-- `2 ^ 31 - 1`. -/
def maxInt32 : Int := 2147483647

/-- `-2 ^ 63`. -/
def minInt64 : Int := -9223372036854775808

/-- `2 ^ 63 - 1`. -/
def maxInt64 : Int := 9223372036854775807

/-- `2 ^ 32 - 1`. -/
def maxWord32 : Nat := 4294967295

/-- `2 ^ 64 - 1`. -/
def maxWord64 : Nat := 18446744073709551615

end FlowTree
