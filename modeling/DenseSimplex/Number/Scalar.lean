/-
  DenseSimplex.Number.Scalar
  ──────────────────────────
  **WHAT THE PIVOTING KERNEL ASKS OF A NUMBER.**

  The kernel is written once, for any type of tableau entries that has the
  operations of `Scalar`.  The class asks for operations only, no laws: a
  machine float satisfies few of them, and every rule of the kernel has to
  be readable for it too.  In particular a value that is not a number is
  one that fails `v ≤ v`, and no rule may assume that it cannot occur.

    * `Scalar`        the arithmetic of tableau entries, with a
                      multiply-add that rounds once;
    * `ReportScalar`  the arithmetic of settings, reports and generated
                      instances: a `Scalar` with decimal literals and
                      conversions from and to the naturals;
    * `Element ω τ`   how entries `τ` are narrowed from and widened to
                      reports `ω`, and the default thresholds that suit
                      the width of `τ`.

  The exact rationals are an instance of all three; the two machine
  widths are in `DenseSimplex.Number.Binary`.
-/

namespace DenseSimplex

/-! ## §1. Tableau arithmetic. -/

/-- The operations of a tableau entry.  `fma a b c` is `a * b + c` with a
single rounding. -/
class Scalar (α : Type) extends Zero α, One α, Neg α, Add α, Sub α, Mul α, Div α, LT α, LE α,
    BEq α where
  decLt : DecidableLT α
  decLe : DecidableLE α
  fma : α → α → α → α
  isFinite : α → Bool

attribute [reducible, instance] Scalar.decLt Scalar.decLe

namespace Scalar

variable {α : Type} [Scalar α]

/-- The magnitude of a value.  What is not a number stays what it is. -/
def magnitude (v : α) : α := if v < 0 then -v else v

/-- Negative values become zero, and so does what is not a number. -/
def clamped (v : α) : α := if 0 < v then v else 0

/-- Whether a value is one that fails to equal itself. -/
def isNotNumber (v : α) : Bool := !decide (v ≤ v)

/-- The smaller of two values, the first on a tie.  Against what is not a
number the other one wins. -/
def lesser (a b : α) : α := if b < a then b else if a ≤ a then a else b

/-- Values of magnitude at most `prec` become exactly zero. -/
def snap (prec v : α) : α := if magnitude v ≤ prec then 0 else v

end Scalar

/-! ## §2. Reports, and the two directions between the widths. -/

/-- The arithmetic of everything around the tableau.  `ofNat` is the value
nearest to a natural number and `truncate` the natural number below a
non-negative value. -/
class ReportScalar (ω : Type) extends Scalar ω, OfScientific ω where
  ofNat : Nat → ω
  truncate : ω → Nat

/-- How tableau entries `τ` are made from reports `ω` and reported back,
and the thresholds that are used where nothing else is asked for. -/
class Element (ω τ : Type) where
  /-- The short name of the entry type in log lines. -/
  name : String
  narrow : ω → τ
  widen : τ → ω
  /-- Objective entries at or below this never enter the basis. -/
  defaultEpsObjective : ω
  /-- Updated entries of at most this magnitude become zero. -/
  defaultPrec : ω
  /-- Ratios at most this far apart are tied. -/
  defaultRatioTieTol : ω

/-- A variable with a negative id is artificial: it exists in phase 1
only. -/
def isArtificial (id : Int) : Bool := id < 0

/-! ## §3. The exact rationals. -/

instance : Scalar Rat where
  zero := 0
  one := 1
  decLt := inferInstance
  decLe := inferInstance
  fma a b c := a * b + c
  isFinite _ := true

instance : ReportScalar Rat where
  ofNat n := n
  truncate v := v.floor.toNat

/-- Rationals need no narrowing; their thresholds are those of the wide
machine type, as exact decimals. -/
instance : Element Rat Rat where
  name := "rational"
  narrow v := v
  widen v := v
  defaultEpsObjective := 1e-14
  defaultPrec := 1e-12
  defaultRatioTieTol := 1e-14

end DenseSimplex
