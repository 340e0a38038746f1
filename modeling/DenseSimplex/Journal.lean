/-
  DenseSimplex.Journal
  ────────────────────
  **WHAT HAPPENED, AND WHAT IS SAID ABOUT IT.**

  An invocation leaves a journal: a list of events, in order, that says
  everything it did.  The journal does not depend on what anyone wants to
  read.  Whether an event becomes a line of the log, and which one, is
  decided afterwards by `Event.record?` from the switches of the loop; in
  the same way the pivots (`Journal.pivots`) and the snapshots that an
  observer was handed (`Journal.snapshots`) are read off the journal.
-/
import DenseSimplex.Selection
import DenseSimplex.Progress

namespace DenseSimplex

/-! ## §1. Outcomes. -/

/-- How an invocation ended. -/
inductive Status where
  /-- The last artificial variable left the basis. -/
  | feasible
  /-- No column improves the objective. -/
  | optimal
  /-- An improving column has no bounding row. -/
  | unbounded
  /-- The step budget of phase 2 is spent. -/
  | budgetExhausted
  deriving DecidableEq, Repr

namespace Status

/-- The name of a status. -/
def text : Status → String
  | .feasible => "Feasible"
  | .optimal => "Optimal"
  | .unbounded => "Unbounded"
  | .budgetExhausted => "Budget Exhausted"

/-- Whether another invocation can make progress. -/
def isResumable : Status → Bool
  | .feasible | .budgetExhausted => true
  | .optimal | .unbounded => false

end Status

/-- What an invocation reports: its status and number of steps, and the
columns, artificial variables and objective value that are left. -/
structure Outcome (ω : Type) where
  status : Status
  steps : Nat
  columns : Nat
  artificials : Nat
  objective : ω
  deriving DecidableEq, Repr

namespace Outcome

/-- The objective is optimal and artificial variables are still there: the
problem has no feasible solution. -/
def isInfeasible {ω : Type} (o : Outcome ω) : Bool :=
  o.status == .optimal && decide (0 < o.artificials)

end Outcome

/-! ## §2. Events. -/

/-- One thing that happened in an invocation. -/
inductive Event (ω τ : Type) where
  /-- The invocation of this number began. -/
  | started (invocation height width : Nat) (phase : Phase) (artificials : Nat)
      (limit : Option Nat)
  /-- The observer was handed a snapshot. -/
  | observed (snapshot : Snapshot ω)
  /-- A right-hand side was found below the tolerance after a pivot. -/
  | violated (index : Nat) (value : τ) (row col : Nat)
  /-- An artificial variable left the basis, and its column the tableau. -/
  | eliminated (id : Int) (col artificials : Nat)
  /-- A pivot was made; objective value and artificial variables are those
  after it. -/
  | pivoted (step : Nat) (choice : Choice τ) (objective : τ) (artificials : Nat)
  /-- The basis became feasible. -/
  | feasible (steps : Nat) (objective : τ)
  /-- The step budget was spent. -/
  | budgetSpent (limit : Nat)
  /-- A column improves the objective without bound. -/
  | unbounded (col : Nat) (id : Int)
  /-- The objective of phase 1 is optimal with artificial variables left. -/
  | stalled (artificials : Nat)
  /-- The invocation ended. -/
  | finished (invocation : Nat) (outcome : Outcome ω)
  deriving DecidableEq, Repr

namespace Event

variable {ω τ : Type}

/-- The pivot that an event tells of. -/
def pivot? : Event ω τ → Option (Choice τ)
  | .pivoted _ choice _ _ => some choice
  | _ => none

/-- The snapshot that an event tells of. -/
def snapshot? : Event ω τ → Option (Snapshot ω)
  | .observed snapshot => some snapshot
  | _ => none

end Event

/-- What happened in one or more invocations, in order. -/
abbrev Journal (ω τ : Type) := List (Event ω τ)

namespace Journal

variable {ω τ : Type}

/-- The pivots of a journal, in order. -/
def pivots (journal : Journal ω τ) : List (Choice τ) := journal.filterMap Event.pivot?

/-- The snapshots that the observer was handed, in order. -/
def snapshots (journal : Journal ω τ) : List (Snapshot ω) := journal.filterMap Event.snapshot?

end Journal

/-! ## §3. Lines of the log. -/

/-- How urgent a line is. -/
inductive Level where
  | error
  | warn
  | info
  | debug
  deriving DecidableEq, Repr

namespace Level

/-- The name of a level. -/
def name : Level → String
  | .error => "ERROR"
  | .warn => "WARN"
  | .info => "INFO"
  | .debug => "DEBUG"

end Level

/-- One line of the log. -/
structure Record where
  level : Level
  text : String
  deriving DecidableEq, Repr

/-- What a reader of the journal wants to see: the beginning and end of
every invocation, the snapshots, and the traced steps. -/
structure Interest where
  verbose : Bool
  observed : Bool
  tracing : Tracing
  deriving DecidableEq, Repr

namespace Phase

/-- The name of a phase. -/
def name : Phase → String
  | .one => "One"
  | .two => "Two"

end Phase

/-- The text of a limit that may be absent. -/
def limitText : Option Nat → String
  | some limit => s!"Some({limit})"
  | none => "None"

namespace Event

variable {ω τ : Type} [Binary ω] [Binary τ] [Element ω τ]

/-- The line that traces a step. -/
def traceText (showPivot : Bool) (step : Nat) (choice : Choice τ) (objective : τ)
    (artificials : Nat) : String :=
  let number := padLeft 6 (toString step)
  let value := Binary.scientificTo 8 objective
  let head := s!"step {number}: objf={value} Z={artificials}"
  if showPivot then
    let element := Binary.scientific choice.value
    let ratio := Binary.scientific choice.ratio
    let gain := Binary.scientific choice.gain
    let mark := if choice.degenerate then " degenerate" else ""
    s!"{head} pivot=({choice.row}, {choice.col}) value={element} ratio={ratio} gain={gain}{mark}"
  else head

/-- The line that begins an invocation. -/
def startText (invocation height width : Nat) (phase : Phase) (artificials : Nat)
    (limit : Option Nat) : String :=
  let shape := s!"{height}x{width} {Element.name ω τ} tableau"
  s!"pivot[{invocation}]: {shape}, phase {phase.name}, Z={artificials}, budget={limitText limit}"

/-- The line that ends an invocation. -/
def endText (invocation : Nat) (o : Outcome ω) : String :=
  let objective := Binary.scientific o.objective
  let head := s!"pivot[{invocation}]: {o.status.text} after {o.steps} steps"
  s!"{head}, objective={objective}, R={o.columns}, Z={o.artificials}"

/-- The line of the log that an event becomes for a reader, if any. -/
def record? (wanted : Interest) : Event ω τ → Option Record
  | .started invocation height width phase artificials limit =>
      if wanted.verbose then
        some ⟨.info, startText (ω := ω) (τ := τ) invocation height width phase artificials limit⟩
      else none
  | .observed snapshot => if wanted.observed then some ⟨.info, snapshot.text⟩ else none
  | .violated index value row col =>
      some ⟨.error, s!"rhs[{index}] = {Binary.scientific value} after pivot on ({row}, {col})"⟩
  | .eliminated id col artificials =>
      some ⟨.debug, s!"artificial {id} eliminated at column {col}, Z={artificials}"⟩
  | .pivoted step choice objective artificials =>
      if wanted.tracing.covers step then
        some ⟨.debug, traceText wanted.tracing.showPivots step choice objective artificials⟩
      else none
  | .feasible steps objective =>
      let value := Binary.scientific objective
      some ⟨.info, s!"feasible basis after {steps} steps, objective={value}"⟩
  | .budgetSpent limit => some ⟨.debug, s!"step budget of {limit} exhausted"⟩
  | .unbounded col id => some ⟨.debug, s!"column {col} (id {id}) is unbounded"⟩
  | .stalled artificials =>
      some ⟨.warn, s!"phase 1 stalled with Z={artificials} artificial variables"⟩
  | .finished invocation outcome =>
      if wanted.verbose then some ⟨.info, endText invocation outcome⟩ else none

end Event

/-- The lines of the log that a journal becomes for a reader. -/
def Journal.records {ω τ : Type} [Binary ω] [Binary τ] [Element ω τ] (journal : Journal ω τ)
    (wanted : Interest) : List Record :=
  journal.filterMap (Event.record? wanted)

end DenseSimplex
