/-
  DenseSimplex.Failure
  ────────────────────
  **WHAT CAN GO WRONG, AS CAUSES.**

  Two kinds of failure are told apart.

    * An `InputError` refuses data that was handed in: a buffer of the
      wrong size, labels that repeat, a count that does not match, an entry
      that is not finite.  Nothing has been changed.
    * A `Fault` stops an operation that was called outside its contract or
      whose own check failed.  What was done before the fault stays done.

  `Failure` is either of them.  The algorithm's verdicts (optimal,
  unbounded, …) are no failures and are found in `DenseSimplex.Run`.
-/
import DenseSimplex.Number.Layout
import DenseSimplex.Random.Source

namespace DenseSimplex

/-! ## §1. Refused input. -/

/-- The parts of the input that have a size. -/
inductive Part where
  | tableauShape
  | tableauData
  | tableauRow
  | leftLabels
  | rightLabels
  deriving DecidableEq, Repr

namespace Part

/-- The name of the part in messages. -/
def name : Part → String
  | .tableauShape => "tableau shape"
  | .tableauData => "tableau data"
  | .tableauRow => "tableau row"
  | .leftLabels => "left labels"
  | .rightLabels => "right labels"

end Part

/-- Why a tableau or a labelled tableau was refused. -/
inductive InputError where
  /-- A part does not have the size that the shape implies. -/
  | dimensionMismatch (part : Part) (expected actual : Nat)
  /-- An id labels two places. -/
  | duplicateLabel (id : Int)
  /-- The declared number of artificial variables is not the number of
  negative labels. -/
  | artificialCount (expected actual : Nat)
  /-- There are more artificial variables than columns. -/
  | tooManyArtificial (artificials columns : Nat)
  /-- An entry is infinite or not a number. -/
  | nonFinite (col row : Nat)
  deriving DecidableEq, Repr

namespace InputError

/-- The text of a refusal. -/
def message : InputError → String
  | .dimensionMismatch part expected actual =>
      s!"Dimension mismatch in {part.name}: expected {expected}, got {actual}"
  | .duplicateLabel id => s!"Variable id {id} appears more than once in the basis labels"
  | .artificialCount expected actual =>
      s!"Artificial count mismatch: Z={expected} but {actual} negative labels present"
  | .tooManyArtificial artificials columns =>
      s!"Too many artificial variables: Z={artificials} exceeds column count R={columns}"
  | .nonFinite col row => s!"Non-finite tableau entry at column {col}, row {row}"

end InputError

/-! ## §2. Faults. -/

/-- Why an operation on a tableau with entries `τ` stopped. -/
inductive Fault (τ : Type) where
  /-- A tableau without rows or without columns was asked for. -/
  | emptyTableau
  /-- A number of entries does not fit a machine word or its memory. -/
  | sizeOverflow
  /-- A counter of steps or invocations ran past a 64-bit word. -/
  | counterOverflow
  /-- There is no such entry. -/
  | noEntry (col row : Nat)
  /-- There is no such column, or the replacement has another length. -/
  | noColumn (col : Nat)
  /-- There is no such label. -/
  | noLabel (index : Nat)
  /-- Two tableaux of different shapes were compared. -/
  | shapeMismatch
  /-- The pivot row is not a constraint row. -/
  | pivotRow (row : Nat)
  /-- The pivot column is not a variable column. -/
  | pivotColumn (col : Nat)
  /-- The pivot element is zero or not finite. -/
  | badPivot (value : τ) (row col : Nat)
  /-- A right-hand side fell below the tolerance. -/
  | negativeRhs (index : Nat) (value : τ) (row col : Nat)
  /-- The labelled tableau is no longer one after a pivot. -/
  | corrupted (row col : Nat) (cause : InputError)
  /-- A column that should hold an artificial variable does not. -/
  | structuralColumn (col : Nat) (id : Int)
  /-- A column was eliminated with no artificial variable left. -/
  | noArtificial
  /-- A random draw could not be made. -/
  | draw (cause : Misdraw)
  deriving Repr

namespace Fault

/-- The text of a fault. -/
def message {τ : Type} [Binary τ] : Fault τ → String
  | .emptyTableau => "tableau must have at least one row and column"
  | .sizeOverflow => "number of entries out of range"
  | .counterOverflow => "counter out of range"
  | .noEntry col row => s!"no entry at column {col}, row {row}"
  | .noColumn col => s!"no column {col} of that length"
  | .noLabel index => s!"no label {index}"
  | .shapeMismatch => "shape mismatch"
  | .pivotRow row => s!"pivot row {row} out of range"
  | .pivotColumn col => s!"pivot column {col} out of range"
  | .badPivot value row col => s!"bad pivot element {Binary.display value} at ({row}, {col})"
  | .negativeRhs index value row col =>
      s!"rhs row {index} became negative ({Binary.scientific value}) after pivot on ({row}, {col})"
  | .corrupted row col cause =>
      s!"pivot state corrupted after pivot on ({row}, {col}): {cause.message}"
  | .structuralColumn col id => s!"column {col} holds structural variable {id}"
  | .noArtificial => "artificial count underflow"
  | .draw cause => cause.message

end Fault

/-- The input was refused, or the operation stopped. -/
inductive Failure (τ : Type) where
  | refused (error : InputError)
  | stopped (fault : Fault τ)
  deriving Repr

end DenseSimplex
