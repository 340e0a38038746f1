/-
  DenseSimplex.Number.Decimal
  ───────────────────────────
  **DECIMAL DIGITS OF BINARY NUMBERS, IN EXACT ARITHMETIC.**

  A `Decimal` is `digits · 10 ^ exponent`.  A positive dyadic number is
  brought to decimals in two ways:

    * `Dyadic.atPlace`   the nearest multiple of a power of ten: fixed
                         places and fixed precision;
    * `Dyadic.shortest`  the fewest digits that read back to the same
                         machine number and, among those, the nearest.

  The shortest digits are searched grid by grid, from one digit upwards.
  On each grid only the two neighbours of the value can lie in the interval
  of reals that round to it, so two tests decide the grid; both are
  inequalities between naturals.

    * `Decimal.toFloat`  the double nearest to a decimal.
-/
import DenseSimplex.Number.Binary

namespace DenseSimplex

/-! ## §1. Decimals and positive dyadic numbers. -/

/-- The number `digits · 10 ^ exponent`. -/
structure Decimal where
  digits : Nat
  exponent : Int
  deriving DecidableEq, Repr

/-- The positive number `significand · 2 ^ exponent`. -/
structure Dyadic where
  significand : Nat
  exponent : Int
  deriving DecidableEq, Repr

/-- Which of two grid points is taken when both are equally near. -/
inductive Tie where
  | even
  | up
  deriving DecidableEq, Repr

/-- The natural number nearest to `n / d`, ties as told. -/
def divNearest (tie : Tie) (n d : Nat) : Nat :=
  let floor := n / d
  let twice := 2 * (n % d)
  let upward := match tie with
    | .up => true
    | .even => floor % 2 == 1
  if twice > d || (twice == d && upward) then floor + 1 else floor

namespace Dyadic

/-- Numerator and denominator of `2 ^ e / 10 ^ place`. -/
def unitRatio (e place : Int) : Nat × Nat :=
  (Nat.pow 10 (-place).toNat <<< e.toNat, Nat.pow 10 place.toNat <<< (-e).toNat)

/-- Whether the number is at least `10 ^ place`. -/
def reaches (x : Dyadic) (place : Int) : Bool :=
  let (n, d) := unitRatio x.exponent place
  decide (d ≤ x.significand * n)

/-- The exponent of the first decimal digit.  The number of binary digits
gives it up to one, since `0.30103` is close to the logarithm of two. -/
def firstPlace (x : Dyadic) : Int :=
  let guess := (x.significand.log2 + x.exponent) * 30103 / 100000
  if x.reaches (guess + 1) then guess + 1
  else if x.reaches guess then guess
  else guess - 1

/-- The nearest multiple of `10 ^ place`, as a count of it; ties as told. -/
def atPlace (x : Dyadic) (tie : Tie) (place : Int) : Nat :=
  let (n, d) := unitRatio x.exponent place
  divNearest tie (x.significand * n) d

/-- `digits` significant decimal digits, rounded to the nearest, ties to
even; a value that rounds up to the next power of ten keeps its number of
digits. -/
def toPrecision (x : Dyadic) (digits : Nat) : Decimal :=
  let place := x.firstPlace + 1 - digits
  let count := x.atPlace .even place
  if count = Nat.pow 10 digits then ⟨count / 10, place + 1⟩ else ⟨count, place⟩

/-! ## §2. The fewest digits that read back. -/

/-- The grid point on the place that reads back, if one does.  Values are
counted in quarters of the last binary place; the interval of reals that
round to the number reaches two quarters up and `below` quarters down, and
holds its ends exactly when the significand is even. -/
def readsBackAt (x : Dyadic) (below : Nat) (tie : Tie) (place : Int) : Option Nat :=
  let (n, d) := unitRatio (x.exponent - 2) place
  let value := 4 * x.significand * n
  let low := (4 * x.significand - below) * n
  let high := (4 * x.significand + 2) * n
  let inside (count : Nat) : Bool :=
    if x.significand % 2 = 0 then decide (low ≤ count * d ∧ count * d ≤ high)
    else decide (low < count * d ∧ count * d < high)
  let floor := value / d
  -- any other point of the grid lies farther from the value than one of these
  match inside floor, inside (floor + 1) with
  | true, true => some (divNearest tie value d)
  | true, false => some floor
  | false, true => some (floor + 1)
  | false, false => none

/-- Search finer and finer grids; the last one answers with the point that
is nearest, whether or not it reads back. -/
def searchGrids (x : Dyadic) (below : Nat) (tie : Tie) : Nat → Int → Decimal
  | 0, place => ⟨x.atPlace tie place, place⟩
  | grids + 1, place =>
      match x.readsBackAt below tie place with
      | some count => ⟨count, place⟩
      | none => searchGrids x below tie grids (place - 1)

/-- The shortest decimal that reads back as the number in the format, the
nearest of those, ties as told.  Below a power of two the numbers lie twice
as dense, except at the bottom of the format.  Seventeen digits always read
back, so the seventeenth grid needs no test. -/
def shortest (x : Dyadic) (f : Format) (tie : Tie) : Decimal :=
  let below := if x.significand = f.hiddenBit ∧ f.leastExponent < x.exponent then 1 else 2
  let found := x.searchGrids below tie 16 x.firstPlace
  if found.digits % 10 = 0 then ⟨found.digits / 10, found.exponent + 1⟩ else found

end Dyadic

/-! ## §3. From decimals to doubles. -/

namespace Decimal

/-- The decimal digits as characters. -/
def characters (d : Decimal) : List Char := Nat.toDigits 10 d.digits

/-- The double nearest to the decimal.  Magnitudes far outside the format
are told apart by their number of digits, without raising ten to their
exponent. -/
def toFloat (d : Decimal) : Float :=
  let size : Int := d.exponent + d.characters.length
  if d.digits = 0 ∨ size < -400 then 0.0
  else if size > 400 then Binary.ofDatum (.infinite false)
  else Float.ofScientific d.digits (decide (d.exponent < 0)) d.exponent.natAbs

end Decimal

end DenseSimplex
