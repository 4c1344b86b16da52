/-!
# Decimal — whole numbers of fixed width

The bounds of whole numbers that take 32 or 64 bits. Without a sign they lie
below `natBound`; with one they lie from the negated `intBound` to below it.
-/

namespace Conductor

namespace Width

/-- The bound of natural numbers of 32 bits. -/
def natBound32 : Nat := 4294967296

/-- The bound of natural numbers of 64 bits. -/
def natBound64 : Nat := 18446744073709551616

/-- The bound of integers of 32 bits. -/
def intBound32 : Nat := 2147483648

/-- The bound of integers of 64 bits. -/
def intBound64 : Nat := 9223372036854775808

end Width

end Conductor
