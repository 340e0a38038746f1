/-
  DenseSimplex.Bench.Program
  ──────────────────────────
  **RANDOM LINEAR PROGRAMS WITH A KNOWN FEASIBLE POINT.**

      maximise    c · x
      subject to  A_le x ≤ b_le,   A_eq x = b_eq,   Σ x ≤ u,   x ≥ 0

  The right-hand sides are computed from a strictly positive point, so
  every program is feasible, and the row `Σ x ≤ u` keeps it bounded.
  Slacks are basic from the start; every equality has an artificial
  variable.

  Drawing and computing are kept apart: a `Sample` is everything random
  about a program, and `LinearProgram.ofSample` computes the first tableau
  from it.

    * `Sample.draw`                    the random choices for a shape;
    * `LinearProgram.ofSample`         the phase-1 tableau and its labels;
    * `LinearProgram.dictionary`       the program as a dictionary;
    * `LinearProgram.installObjective` the true objective in the present
                                       basis, for phase 2.
-/
import DenseSimplex.Dictionary
import DenseSimplex.Memory
import DenseSimplex.Random.ChaCha

namespace DenseSimplex

/-! ## §1. Shapes and samples. -/

/-- The size of a program: its variables, inequalities and equalities, and
the probability that a coefficient is not zero. -/
structure Shape (ω : Type) where
  vars : Nat
  leRows : Nat
  eqRows : Nat
  density : ω
  deriving Repr

namespace Shape

variable {ω : Type}

/-- There is at least one variable. -/
def columns (s : Shape ω) : Nat := max s.vars 1

/-- There are at most as many equalities as variables. -/
def equalities (s : Shape ω) : Nat := min s.eqRows s.columns

/-- The number of rows of the first tableau: the objective, the
inequalities, the bound on the sum and the equalities. -/
def rows (s : Shape ω) : Nat := s.leRows + s.equalities + 2

/-- Whether a row of the tableau and the list of its rows can be held. -/
def canBeHeld (s : Shape ω) : Bool :=
  canHold s.columns numberBytes && canHold s.rows listBytes

/-- The density brought between zero and one. -/
def chance [Scalar ω] (s : Shape ω) : ω :=
  if s.density < 0 then 0 else if 1 < s.density then 1 else s.density

end Shape

/-- Everything random about a program: the feasible point, the costs, the
coefficients and the slack of each inequality, and the coefficients of
each equality. -/
structure Sample (ω : Type) where
  point : List ω
  costs : List ω
  inequalities : List (List ω × ω)
  equalities : List (List ω)

/-- Draws in sequence; the first that cannot be made ends them. -/
abbrev Drawing (γ : Type) := StateT γ (Except Misdraw)

namespace Drawing

variable {ω γ : Type} [ReportScalar ω] [Source γ]

/-- A number of a half-open interval. -/
def real (low high : ω) : Drawing γ ω := fun source => Source.drawReal low high source

/-- True with a given probability. -/
def chance (p : ω) : Drawing γ Bool := fun source => Source.drawChance p source

/-- An index below a positive number. -/
def index (size : Nat) : Drawing γ Nat := fun source => Source.drawBetween 0 (size - 1) source

/-- The same draw a number of times. -/
def times {β : Type} : Nat → Drawing γ β → Drawing γ (List β)
  | 0, _ => pure []
  | n + 1, draw => do
      let first ← draw
      let rest ← times n draw
      pure (first :: rest)

/-- A coefficient, which is zero unless the chance comes true. -/
def coefficient (density : ω) : Drawing γ ω := do
  if ← chance density then real (-1) 1 else pure 0

/-- The coefficients of a row, of which at least one is made different from
zero. -/
def row (size : Nat) (density : ω) : Drawing γ (List ω) := do
  let coefficients ← times size (coefficient density)
  let forced ← index size
  match coefficients[forced]? with
  | some own =>
      if own == 0 then
        let replacement ← real 0.5 1.5
        pure (coefficients.set forced replacement)
      else pure coefficients
  | none => pure coefficients

/-- The coefficients of an inequality and its slack at the feasible
point. -/
def inequality (size : Nat) (density : ω) : Drawing γ (List ω × ω) := do
  let coefficients ← row size density
  let slack ← real 0 1
  pure (coefficients, slack)

end Drawing

namespace Sample

variable {ω γ : Type} [ReportScalar ω] [Source γ]

/-- The random choices for a shape, in the order in which they are drawn. -/
def choices (shape : Shape ω) : Drawing γ (Sample ω) := do
  let point ← Drawing.times shape.columns (Drawing.real 0.1 1.1)
  let costs ← Drawing.times shape.columns (Drawing.real 0.1 1)
  let inequalities ←
    Drawing.times shape.leRows (Drawing.inequality shape.columns shape.chance)
  let equalities ← Drawing.times shape.equalities (Drawing.row shape.columns shape.chance)
  pure ⟨point, costs, inequalities, equalities⟩

/-- The random choices for a shape, unless they are too many. -/
def draw (shape : Shape ω) : Drawing γ (Sample ω) :=
  if shape.canBeHeld then choices shape else throw .tooMany

end Sample

/-! ## §2. Programs. -/

/-- A program in its first basis: the rows of the phase-1 tableau, the
objective row first, their labels, the costs of the variables `1, 2, …`,
and the objective at the feasible point, which the optimum cannot be
below. -/
structure LinearProgram (ω : Type) where
  rows : List (List ω)
  left : List Int
  right : List Int
  artificials : Nat
  costs : List ω
  feasibleObjective : ω
  deriving Repr

namespace LinearProgram

variable {ω : Type}

/-- The label of variable number `n`, a signed 32-bit word. -/
def label (n : Nat) : Int := Int.bmod n UInt32.size

/-- The inner product, summed from left to right. -/
def dot [Scalar ω] (a x : List ω) : ω := (List.zipWith (· * ·) a x).foldl (· + ·) 0

/-- The row `slack = b - a · x` of a tableau. -/
def tableauRow [Scalar ω] (b : ω) (a : List ω) : List ω := b :: a.map (-·)

/-- An equality with the sign that makes its right-hand side
non-negative. -/
def oriented [Scalar ω] (point a : List ω) : ω × List ω :=
  let b := dot a point
  if b < 0 then (-b, a.map (-·)) else (b, a)

/-- The objective of phase 1 after one more equality: minus the sum of the
artificial variables. -/
def chargeRow [Scalar ω] (objective : List ω) (row : ω × List ω) : List ω :=
  match objective with
  | [] => []
  | value :: entries => (value - row.1) :: List.zipWith (· + ·) entries row.2

/-- The program of a sample. -/
def ofSample [ReportScalar ω] (s : Sample ω) : LinearProgram ω :=
  let n := s.point.length
  let inequality (row : List ω × ω) : List ω :=
    tableauRow (Scalar.clamped (dot row.1 s.point) + row.2) row.1
  let bound := tableauRow (s.point.foldl (· + ·) 0 * 2.0) (List.replicate n 1)
  let equalities := s.equalities.map (oriented s.point)
  -- one slack for each inequality and one for the bound on the sum
  let slacks := s.inequalities.length + 1
  { rows :=
      equalities.foldl chargeRow (List.replicate (n + 1) 0) ::
        s.inequalities.map inequality ++ bound :: equalities.map fun row => tableauRow row.1 row.2
    left :=
      (List.range slacks).map (fun i => label (n + 1 + i)) ++
        (List.range s.equalities.length).map fun i => -label (i + 1)
    right := (List.range n).map fun j => label (j + 1)
    artificials := s.equalities.length
    costs := s.costs
    feasibleObjective := dot s.costs s.point }

/-- The program of a shape and a seed. -/
def generate [ReportScalar ω] (shape : Shape ω) (seed : Nat) :
    Except Misdraw (LinearProgram ω) :=
  match (Sample.draw shape).run (Generator.ofSeed (UInt64.ofNat seed)) with
  | .ok (sample, _) => .ok (ofSample sample)
  | .error e => .error e

/-- The number of constraint rows. -/
def height (p : LinearProgram ω) : Nat := p.left.length

/-! ## §3. Dictionaries of a program. -/

variable {τ : Type} [Scalar τ] [Element ω τ]

/-- The program as a dictionary with entries `τ`. -/
def dictionary (p : LinearProgram ω) : Except (Failure τ) (Dictionary τ) := do
  let tableau ← Tableau.ofRows (p.rows.map fun row => row.map Element.narrow)
  match Dictionary.ofParts tableau p.left p.right p.artificials with
  | .ok d => pure d
  | .error e => throw (.refused e)

/-- The cost of a variable; slacks and artificial variables cost
nothing. -/
def cost [Zero ω] (p : LinearProgram ω) (id : Int) : ω :=
  if 1 ≤ id then (p.costs[id.toNat - 1]?).getD 0 else 0

/-- The objective entry of a column with cost `own`, whose entries stand in
the rows of basic variables with costs `basic`. -/
def price [Scalar ω] (basic : List ω) (own : ω) (c : Column τ) : τ :=
  Element.narrow ((c.entries.zip basic).foldl
    (fun sum (entry, cost) => sum + cost * Element.widen entry) own)

/-- Replace the objective row of a dictionary by the true objective,
written in the present basis. -/
def installObjective [Scalar ω] (p : LinearProgram ω) (d : Dictionary τ) : Dictionary τ :=
  let basic := d.left.map p.cost
  let own : List ω := 0 :: d.right.map p.cost
  { d with
    tableau := d.tableau.mapColumns
      (fun j c => { c with objective := price basic (own.getD j 0) c })
      (fun _ _ h => h) }

end LinearProgram

end DenseSimplex
