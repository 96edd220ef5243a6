import FormulaCompiler.Binary64

/-!
# Decimal notation of doubles

A `Decimal` is a nonnegative number written with finitely many decimal digits. It is written
positionally, never with an exponent, and reading rounds it to the nearest double. The text of a
double is the shortest decimal that reads back as that double: the grids of one, two, ... digits are
tried in turn, and on the first grid that has a decimal reading back the nearer neighbour of the
exact value is taken, the upper one if both are equally near.
-/

namespace FormulaCompiler

/-- The number `digits * 10 ^ exponent`. -/
structure Decimal where
  digits : Nat
  exponent : Int
  deriving DecidableEq

namespace Decimal

/-- The value of a run of decimal digit characters. -/
def digitsValue (digits : List Char) : Nat :=
  digits.foldl (fun value c => 10 * value + (c.toNat - '0'.toNat)) 0

/-- The decimal written with the given whole and fractional digits. -/
def ofDigits (whole fraction : List Char) : Decimal :=
  ⟨digitsValue (whole ++ fraction), -fraction.length⟩

/-- A number written in at least `width` digits, filled up with leading zeros. -/
def padded (width n : Nat) : String :=
  let digits := toString n
  String.ofList (List.replicate (width - digits.length) '0') ++ digits

/-- Positional notation, with a point only if the exponent is negative. -/
def text (d : Decimal) : String :=
  if 0 ≤ d.exponent then
    toString (d.digits * Nat.pow 10 d.exponent.toNat)
  else
    let places := (-d.exponent).toNat
    toString (d.digits / Nat.pow 10 places) ++ "." ++ padded places (d.digits % Nat.pow 10 places)

def nearestRank (d : Decimal) : Nat :=
  Binary64.nearestRank (d.digits * Nat.pow 10 d.exponent.toNat) (Nat.pow 10 (-d.exponent).toNat)

/-- The double that a decimal denotes, if it is not too large for one. -/
def toBinary64? (d : Decimal) : Option Binary64 :=
  let rank := d.nearestRank
  if rank < Binary64.infinityRank then some (Binary64.ofRank false rank) else none

/-! ### Shortest decimals -/

/-- How often a magnitude below one has to be multiplied by ten until the next time makes it at least
one: the number of zeros after its decimal point. At most `fuel` zeros are counted. -/
def zerosAfterPoint : Nat → Nat → Nat
  | 0, _ => 0
  | fuel + 1, units =>
      if Binary64.unitsOfOne ≤ 10 * units then 0 else zerosAfterPoint fuel (10 * units) + 1

/-- The place `p` of the first digit of a positive magnitude: `10 ^ (p - 1) ≤ value < 10 ^ p`. -/
def leadingPlace (units : Nat) : Int :=
  if Binary64.unitsOfOne ≤ units then
    (toString (units / Binary64.unitsOfOne)).length
  else
    -(zerosAfterPoint 330 units : Int)

/-- The neighbour of a magnitude on the grid of multiples of `10 ^ exponent` that reads back as the
given rank: the nearer one if both do, the upper one if they are equally near. -/
def onGrid? (rank units : Nat) (exponent : Int) : Option Decimal :=
  let numerator := units * Nat.pow 10 (-exponent).toNat
  let denominator := Binary64.unitsOfOne * Nat.pow 10 exponent.toNat
  let below : Decimal := ⟨numerator / denominator, exponent⟩
  let above : Decimal := ⟨numerator / denominator + 1, exponent⟩
  let nearestFirst :=
    if 2 * (numerator % denominator) < denominator then [below, above] else [above, below]
  nearestFirst.find? (fun d => d.nearestRank == rank)

/-- A magnitude written out to its last digit. -/
def exact (units : Nat) : Decimal := ⟨units * Nat.pow 5 1074, -1074⟩

/-- The shortest decimal that reads back as a finite rank. A double is told apart by seventeen digits
at most; one digit above the first is tried as well, for a value that rounds up to a power of ten. -/
def shortest (rank : Nat) : Decimal :=
  if rank = 0 then ⟨0, 0⟩
  else
    let units := Binary64.unitsOfRank rank
    let place := leadingPlace units
    ((List.range 18).findSome? fun (n : Nat) => onGrid? rank units (place - n)).getD (exact units)

end Decimal

/-- The text of a double: its shortest decimal after a minus sign if the sign bit is set, with words
for the infinities and for every NaN. -/
def Binary64.text (x : Binary64) : String :=
  if x.isNaN then "NaN"
  else (if x.isNegative then "-" else "")
    ++ (if x.isFinite then (Decimal.shortest x.rank).text else "inf")

end FormulaCompiler
