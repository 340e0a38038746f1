/-
  DenseSimplex.Number.Binary
  ──────────────────────────
  **BINARY FLOATING POINT: BIT PATTERNS, ONE ROUNDING, FUSED MULTIPLY-ADD.**

  A `Format` fixes the two interchange formats by the number of bits of
  their significand and exponent.  A bit pattern stands for a `Datum`; a
  finite one is a sign and a dyadic number `significand · 2^exponent`.

  The one rounding step goes from an exact dyadic number to the nearest
  bit pattern, ties to the even significand:

      Format.round : significand → exponent → magnitude

  Reading the rounded significand and the exponent offset as one number
  makes subnormals, carries into the next binade and overflow to infinity
  the same case (`Format.round`).

    * `fusedMultiplyAdd`  the exact value of `a · b + c`, rounded once;
    * `Scalar Float`, `Scalar Float32`, and how the two are converted.
-/
import DenseSimplex.Number.Scalar

namespace DenseSimplex

/-! ## §1. Formats. -/

/-- An interchange format: how many bits its significand has, the hidden
one included, and how many its exponent.  What follows from the two is
kept beside them. -/
structure Format where
  precision : Nat
  exponentBits : Nat
  /-- The bits of the significand that a pattern stores. -/
  storedBits : Nat := precision - 1
  /-- The hidden bit, which is the smallest significand of full length. -/
  hiddenBit : Nat := 1 <<< storedBits
  /-- The exponent of the last place of the smallest numbers. -/
  leastExponent : Int := 3 - (1 <<< (exponentBits - 1) : Nat) - precision
  /-- The magnitude of infinity: an exponent field of ones. -/
  infinityBits : Nat := (1 <<< exponentBits - 1) <<< storedBits
  deriving DecidableEq, Repr

namespace Format

/-- The double width: 53 significand bits, 11 exponent bits. -/
def binary64 : Format := { precision := 53, exponentBits := 11 }

/-- The single width: 24 significand bits, 8 exponent bits. -/
def binary32 : Format := { precision := 24, exponentBits := 8 }

/-- The number of bits of a pattern. -/
def width (f : Format) : Nat := f.precision + f.exponentBits

end Format

/-- A bit pattern: its sign bit, and the other bits as a number. -/
structure Pattern where
  negative : Bool
  magnitude : Nat
  deriving DecidableEq, Repr

/-- What a bit pattern stands for; a finite number is the sign times
`significand · 2 ^ exponent`. -/
inductive Datum where
  | notANumber
  | infinite (negative : Bool)
  | finite (negative : Bool) (significand : Nat) (exponent : Int)
  deriving DecidableEq, Repr

namespace Format

/-- Read a bit pattern. -/
def decode (f : Format) (p : Pattern) : Datum :=
  if f.infinityBits ≤ p.magnitude then
    if p.magnitude = f.infinityBits then .infinite p.negative else .notANumber
  else
    let field := p.magnitude >>> f.storedBits
    let fraction := p.magnitude % f.hiddenBit
    if field = 0 then .finite p.negative fraction f.leastExponent
    else .finite p.negative (f.hiddenBit + fraction) (f.leastExponent + field - 1)

end Format

/-! ## §2. Rounding to the nearest, ties to even. -/

/-- The integer nearest to `n / 2 ^ k`, the even one of two that are
equally near. -/
def shiftNearestEven (n k : Nat) : Nat :=
  let floor := n >>> k
  let twice := (n - floor <<< k) <<< 1
  let unit := 1 <<< k
  if twice > unit || (twice == unit && floor % 2 == 1) then floor + 1 else floor

namespace Format

/-- The magnitude nearest to the exact number `significand · 2 ^ exponent`;
beyond the largest finite number, infinity.  The rounded significand counts
steps of the last place above the start of its binade, so that adding the
binade's own magnitude also absorbs a carry. -/
def round (f : Format) (significand : Nat) (exponent : Int) : Nat :=
  if significand = 0 then 0
  else
    let length : Nat := significand.log2 + 1
    -- the last place that the format keeps; subnormals all share the least one
    let last : Int := max f.leastExponent (exponent + length - f.precision)
    let steps : Nat :=
      if last ≤ exponent then significand <<< (exponent - last).toNat
      else shiftNearestEven significand (last - exponent).toNat
    -- the hidden bit of `steps` raises the exponent field by one, as it should
    let binade : Nat := (last - f.leastExponent).toNat <<< f.storedBits
    min f.infinityBits (binade + steps)

/-- The pattern of a datum. -/
def encode (f : Format) : Datum → Pattern
  | .notANumber => ⟨false, f.infinityBits + f.hiddenBit / 2⟩
  | .infinite negative => ⟨negative, f.infinityBits⟩
  | .finite negative significand exponent => ⟨negative, f.round significand exponent⟩

end Format

/-! ## §3. The machine types. -/

/-- A number type that is stored as bit patterns of one format. -/
class Binary (α : Type) where
  format : Format
  pattern : α → Pattern
  ofPattern : Pattern → α

instance : Binary Float where
  format := .binary64
  pattern v := ⟨v.toBits >>> 63 == 1, (v.toBits &&& 0x7fffffffffffffff).toNat⟩
  ofPattern p :=
    let magnitude := UInt64.ofNat p.magnitude
    Float.ofBits (if p.negative then magnitude ||| 0x8000000000000000 else magnitude)

instance : Binary Float32 where
  format := .binary32
  pattern v := ⟨v.toBits >>> 31 == 1, (v.toBits &&& 0x7fffffff).toNat⟩
  ofPattern p :=
    let magnitude := UInt32.ofNat p.magnitude
    Float32.ofBits (if p.negative then magnitude ||| 0x80000000 else magnitude)

namespace Binary

variable {α : Type} [Binary α]

/-- What a machine number stands for. -/
def datum (v : α) : Datum := (format α).decode (pattern v)

/-- The machine number nearest to a datum. -/
def ofDatum (d : Datum) : α := ofPattern ((format α).encode d)

/-- The exact sum of two dyadic numbers with signs, on the finer of the two
grids.  A sum that cancels is positive. -/
def exactSum (s : Bool) (m : Nat) (e : Int) (s' : Bool) (m' : Nat) (e' : Int) : Datum :=
  let finer := min e e'
  let a := m <<< (e - finer).toNat
  let b := m' <<< (e' - finer).toNat
  if s == s' then .finite s (a + b) finer
  else if b < a then .finite s (a - b) finer
  else if a < b then .finite s' (b - a) finer
  else .finite false 0 finer

/-- Multiply and add with one rounding.  Where a factor is not finite
nothing is rounded, so the separate operations answer; and a finite product
cannot move an addend that is not finite. -/
def fusedMultiplyAdd [Add α] [Mul α] (a b c : α) : α :=
  match datum a, datum b, datum c with
  | .finite sa ma ea, .finite sb mb eb, .finite sc mc ec =>
      ofDatum (exactSum (sa != sb) (ma * mb) (ea + eb) sc mc ec)
  -- the product is finite, if huge, and the addend is not
  | .finite .., .finite .., _ => c
  | _, _, _ => a * b + c

end Binary

/-! ## §4. The kernel's arithmetic on them. -/

instance : Scalar Float where
  zero := 0.0
  one := 1.0
  decLt := inferInstance
  decLe := inferInstance
  fma := Binary.fusedMultiplyAdd
  isFinite := Float.isFinite

instance : Scalar Float32 where
  zero := 0.0
  one := 1.0
  decLt := inferInstance
  decLe := inferInstance
  fma := Binary.fusedMultiplyAdd
  isFinite := Float32.isFinite

instance : ReportScalar Float where
  ofNat := Float.ofNat
  truncate v := v.toUInt64.toNat

/-- The double width reports itself. -/
instance : Element Float Float where
  name := "f64"
  narrow v := v
  widen v := v
  defaultEpsObjective := 1e-14
  defaultPrec := 1e-12
  defaultRatioTieTol := 1e-14

/-- The single width rounds what it is given and needs wider thresholds. -/
instance : Element Float Float32 where
  name := "f32"
  narrow := Float.toFloat32
  widen := Float32.toFloat
  defaultEpsObjective := 1e-6
  defaultPrec := 1e-6
  defaultRatioTieTol := 1e-7

end DenseSimplex
