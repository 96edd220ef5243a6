/-!
# Double-precision numbers

A `Binary64` is the 64-bit word of a binary floating-point number: a sign bit, eleven exponent bits
and 52 fraction bits. All arithmetic on it is exact: the word without its sign bit is its *rank*,
which orders the magnitudes, and every finite magnitude is a whole number of units of `2 ^ (-1074)`,
the least positive one. Rounding a quotient to the nearest number is then a division of natural
numbers, and so is everything that printing and reading build on it.
-/

namespace FormulaCompiler

/-- A double-precision number, given by its word. Equality of words is `=`; the numerical comparison,
for which a NaN differs from itself and the two zeros agree, is `==`. -/
structure Binary64 where
  bits : UInt64
  deriving DecidableEq, Inhabited

namespace Binary64

/-! ### Fields of the word -/

/-- The place of the sign bit, `2 ^ 63`. Ranks lie below it. -/
def signPlace : Nat := 0x8000000000000000

/-- The number of ranks between two powers of two, `2 ^ 52`: one for each fraction. -/
def ranksPerPower : Nat := 0x10000000000000

/-- How many units of `2 ^ (-1074)` the number one has. -/
def unitsOfOne : Nat := Nat.pow 2 1074

/-- The rank of the infinities: finite numbers rank below it and NaNs above it. -/
def infinityRank : Nat := 2047 * ranksPerPower

def isNegative (x : Binary64) : Bool := decide (signPlace ≤ x.bits.toNat)

/-- The word without its sign bit. -/
def rank (x : Binary64) : Nat := x.bits.toNat % signPlace

def isFinite (x : Binary64) : Bool := decide (x.rank < infinityRank)

def isNaN (x : Binary64) : Bool := decide (infinityRank < x.rank)

/-- The number with a given sign bit and rank. -/
def ofRank (negative : Bool) (rank : Nat) : Binary64 :=
  ⟨UInt64.ofNat ((if negative then signPlace else 0) + rank)⟩

/-- The magnitude that a rank below `infinityRank` stands for, in units of `2 ^ (-1074)`. The lowest
ranks, up to the first power of two, are that many units; above them each further power doubles the
step. -/
def unitsOfRank (rank : Nat) : Nat :=
  if rank / ranksPerPower = 0 then rank
  else (ranksPerPower + rank % ranksPerPower) * Nat.pow 2 (rank / ranksPerPower - 1)

/-- The exact magnitude of a finite number, in units of `2 ^ (-1074)`. -/
def units (x : Binary64) : Nat := unitsOfRank x.rank

/-! ### Rounding -/

/-- The whole number nearest to a quotient; of two equally near ones, the even one. -/
def divideToEven (numerator denominator : Nat) : Nat :=
  let quotient := numerator / denominator
  let remainder := numerator % denominator
  if 2 * remainder < denominator then quotient
  else if denominator < 2 * remainder then quotient + 1
  else if quotient % 2 = 0 then quotient
  else quotient + 1

/-- The rank of the number nearest to a quotient, ties going to the even significand; at least
`infinityRank` if the quotient is too large. A significand that rounds up to the next power of two
carries into the exponent, so the sum is right in that case too. -/
def nearestRank (numerator denominator : Nat) : Nat :=
  let scaled := numerator * unitsOfOne
  let shift := (scaled / denominator).log2 - 52
  shift * ranksPerPower + divideToEven scaled (denominator * Nat.pow 2 shift)

def ofInt (i : Int) : Binary64 := ofRank (decide (i < 0)) (min (nearestRank i.natAbs 1) infinityRank)

/-! ### Comparison and conversion -/

/-- Numerical equality: a NaN equals nothing, and zero has one value under both signs. -/
def sameNumber (x y : Binary64) : Bool :=
  !x.isNaN && !y.isNaN && (x.bits == y.bits || (x.rank == 0 && y.rank == 0))

instance : BEq Binary64 := ⟨sameNumber⟩

/-- The integral part of a finite number, its fraction dropped, held within the signed 32-bit
range. -/
def truncateToWord (x : Binary64) : Int :=
  let whole : Int := x.units / unitsOfOne
  max (-2147483648) (min 2147483647 (if x.isNegative then -whole else whole))

end Binary64

end FormulaCompiler
