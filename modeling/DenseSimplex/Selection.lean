/-
  DenseSimplex.Selection
  ──────────────────────
  **CHOOSING A PIVOT.**

  A column improves the objective if its objective entry exceeds
  `epsObjective`.  How far its variable can grow is decided by the rows
  whose entry is below `-pivotTol`; each of them bounds the step by

      ratio  =  max rhs 0 / |entry|

  (§1), and the tightest one leaves the basis (`leavingRow`, §2): the first
  row of the smallest ratio, unless a row of an artificial variable is
  nearly as tight and leaving it keeps every right-hand side within `prec`
  of feasible.

  Columns are scanned from left to right (`scan`, §3).  The scan ends

    * at an improving column without a bounding row: the problem is
      unbounded;
    * at a column that evicts an artificial variable: it is taken;
    * at a column with a degenerate step that is the first improving one,
      or that wins the toss of a coin: it is taken.

  Otherwise the column of largest gain `objective entry · ratio` is taken,
  the first of equals, and if none improves the tableau is optimal.  The
  coin breaks the patterns in which a deterministic rule would cycle on a
  degenerate vertex.
-/
import DenseSimplex.Dictionary
import DenseSimplex.Settings

namespace DenseSimplex

/-! ## §1. Rows that bound a step. -/

/-- A constraint row as the ratio test sees it: its number, its entry in
the column under test, its right-hand side (negative ones count as zero)
and its variable. -/
structure BoundingRow (α : Type) where
  row : Nat
  entry : α
  available : α
  label : Int
  deriving DecidableEq, Repr

namespace BoundingRow

variable {α : Type} [Scalar α]

/-- The step at which the row's variable reaches zero. -/
def ratio (b : BoundingRow α) : α := b.available / Scalar.magnitude b.entry

/-- The step at which the row's variable reaches `-prec`. -/
def reach (prec : α) (b : BoundingRow α) : α := (b.available + prec) / Scalar.magnitude b.entry

/-- Constraint rows numbered from `row` on, from the entries of a column,
the right-hand sides and the labels. -/
def number (row : Nat) : List α → List α → List Int → List (BoundingRow α)
  | entry :: entries, rhs :: rhss, label :: labels =>
      ⟨row, entry, Scalar.clamped rhs, label⟩ :: number (row + 1) entries rhss labels
  | _, _, _ => []

/-- The rows that bound a step along a column. -/
def ofColumn (pivotTol : α) (entries rhs : List α) (labels : List Int) : List (BoundingRow α) :=
  (number 1 entries rhs labels).filter fun b => decide (b.entry < -pivotTol)

/-! ## §2. The leaving row. -/

/-- The tighter of the tightest row so far and one more; the earlier one on
a tie. -/
def tighter (best : Option (BoundingRow α)) (b : BoundingRow α) : Option (BoundingRow α) :=
  match best with
  | none => some b
  | some a => if b.ratio < a.ratio then some b else some a

/-- The first row of the smallest ratio. -/
def tightest (rows : List (BoundingRow α)) : Option (BoundingRow α) := rows.foldl tighter none

/-- A bound on steps lowered to a value, if it is lower; `none` is no
bound, and what is not a number bounds nothing. -/
def lower (bound : Option α) (value : α) : Option α :=
  match bound with
  | none => if value ≤ value then some value else none
  | some b => if value < b then some value else some b

/-- The longest step that keeps every row at or above `-prec`. -/
def feasibleStep (prec : α) (rows : List (BoundingRow α)) : Option α :=
  rows.foldl (fun bound b => lower bound (b.reach prec)) none

/-- Whether a step respects a bound. -/
def respects (bound : Option α) (step : α) : Bool :=
  match bound with
  | none => decide (step ≤ step)
  | some b => decide (step ≤ b)

/-- Whether the row of an artificial variable may leave in place of the
tightest row: it is nearly as tight, and its step keeps every row
feasible. -/
def mayReplace (limits : Limits α) (rows : List (BoundingRow α)) (min b : BoundingRow α) : Bool :=
  isArtificial b.label && decide (b.ratio - min.ratio ≤ limits.ratioTieTol)
    && respects (feasibleStep limits.prec rows) b.ratio

/-- The row that leaves among those that bound a step. -/
def leaving (limits : Limits α) (rows : List (BoundingRow α)) : Option (BoundingRow α) :=
  match tightest rows with
  | none => none
  | some min =>
      if isArtificial min.label then some min
      else
        -- the tightest row is structural: an artificial one may be nearly as tight
        match rows.find? (mayReplace limits rows min) with
        | some b => some b
        | none => some min

end BoundingRow

/-- The ratio test of one column against the right-hand sides and the
labels of the rows. -/
def leavingRow {α : Type} [Scalar α] (limits : Limits α) (entries rhs : List α)
    (labels : List Int) : Option (BoundingRow α) :=
  BoundingRow.leaving limits (BoundingRow.ofColumn limits.pivotTol entries rhs labels)

/-! ## §3. The entering column. -/

/-- A pivot that can be made: its row and column, its element, the step
length and the objective's gain, whether the step counts as degenerate and
whether it drives an artificial variable out of the basis. -/
structure Choice (α : Type) where
  row : Nat
  col : Nat
  value : α
  ratio : α
  gain : α
  degenerate : Bool
  evictsArtificial : Bool
  deriving DecidableEq, Repr

/-- The outcome of a scan. -/
inductive Selection (α : Type) where
  /-- A pivot was found. -/
  | found (choice : Choice α)
  /-- The column improves the objective and nothing bounds it. -/
  | unbounded (col : Nat)
  /-- No column improves the objective. -/
  | noPivot
  deriving DecidableEq, Repr

namespace Choice

variable {α : Type} [Scalar α]

/-- The pivot on a column with a leaving row. -/
def ofLeaving (limits : Limits α) (col : Nat) (objective : α) (b : BoundingRow α) : Choice α where
  row := b.row
  col := col
  value := b.entry
  ratio := b.ratio
  gain := objective * b.ratio
  degenerate := decide (b.ratio ≤ limits.degenerateTol)
  evictsArtificial := isArtificial b.label

/-- The choice of larger gain, the earlier one on a tie. -/
def better (best : Option (Choice α)) (c : Choice α) : Choice α :=
  match best with
  | none => c
  | some b => if b.gain < c.gain then c else b

end Choice

namespace Selection

variable {α γ : Type} [Scalar α] [Source γ]

/-- The outcome of a scan that reached the end. -/
def ofBest : Option (Choice α) → Selection α
  | some choice => .found choice
  | none => .noPivot

/-- Whether the scan stops at a candidate, given the best one before it. A
coin is tossed exactly for a degenerate candidate that is not the first and
evicts no artificial variable. -/
def stopsAt (best : Option (Choice α)) (c : Choice α) (source : γ) : Bool × γ :=
  if c.evictsArtificial then (true, source)
  else if c.degenerate then
    match best with
    | none => (true, source)
    | some _ => Source.drawCoin source
  else (false, source)

/-- Scan the columns numbered from `col` on, the best candidate so far in
hand. -/
def scan (limits : Limits α) (rhs : List α) (labels : List Int) (col : Nat) :
    List (Column α) → Option (Choice α) → γ → Selection α × γ
  | [], best, source => (ofBest best, source)
  | c :: columns, best, source =>
      if c.objective ≤ limits.epsObjective then
        scan limits rhs labels (col + 1) columns best source
      else
        match leavingRow limits c.entries rhs labels with
        -- the variable can grow for ever; later columns are not looked at
        | none => (.unbounded col, source)
        | some b =>
            let candidate := Choice.ofLeaving limits col c.objective b
            let (stop, after) := stopsAt best candidate source
            if stop then (.found candidate, after)
            else scan limits rhs labels (col + 1) columns (some (Choice.better best candidate)) after

/-- Choose the next pivot of a dictionary; the dictionary is only read. -/
def ofDictionary (limits : Limits α) (d : Dictionary α) (source : γ) : Selection α × γ :=
  scan limits d.tableau.rhs.entries d.left 1 d.tableau.columns none source

end Selection

end DenseSimplex
