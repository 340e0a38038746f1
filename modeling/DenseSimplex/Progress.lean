/-
  DenseSimplex.Progress
  ─────────────────────
  **REPORTS OF A RUNNING INVOCATION.**

  A `Snapshot` says how far an invocation has come.  It reaches the outside
  in two ways: an observer is handed one before a step whenever the report
  interval has passed, and a shared cell, where there is one, holds the
  latest.  A monitor looks at the cell every so often; how often must not
  be never (`monitorEvery`).

  `Tracing` decides which steps leave a line in the log, and how detailed
  it is.
-/
import DenseSimplex.Settings
import DenseSimplex.Dictionary

namespace DenseSimplex

/-! ## §1. Snapshots. -/

/-- The number of steps taken in the current invocation, the objective
value, the number of artificial variables present, and the number of
threads at work, which is zero for a loop that runs alone. -/
structure Snapshot (ω : Type) where
  step : Nat
  objective : ω
  artificials : Nat
  workers : Nat
  deriving DecidableEq, Repr

namespace Snapshot

/-- The content of a cell that nothing was written to. -/
def blank {ω : Type} [Zero ω] : Snapshot ω := ⟨0, 0, 0, 0⟩

/-- How far an invocation has come after some steps. -/
def ofDictionary {ω τ : Type} [Element ω τ] (steps : Nat) (d : Dictionary τ) : Snapshot ω :=
  ⟨steps, Element.widen d.objective, d.artificials, 0⟩

/-- The line that reports a snapshot. -/
def text {ω : Type} [Binary ω] (s : Snapshot ω) : String :=
  let step := padLeft 8 (toString s.step)
  let objective := Binary.scientificTo 8 s.objective
  s!"iter {step}  objf={objective}  Z={s.artificials}  [nthreads={s.workers}]"

end Snapshot

/-- The pause between two looks of a monitor, in nanoseconds. -/
def monitorEvery {ω : Type} (interval : Nat) : Except (SettingsError ω) Nat :=
  if interval = 0 then .error .zeroMonitorInterval else .ok interval

/-! ## §2. Tracing. -/

/-- Whether steps are traced, every how many steps (zero counts as one),
and whether the line shows the pivot. -/
structure Tracing where
  enabled : Bool
  every : Nat
  showPivots : Bool
  deriving DecidableEq, Repr

namespace Tracing

/-- Nothing is traced. -/
def off : Tracing := ⟨false, 1, true⟩

/-- Every step is traced with its pivot. -/
def full : Tracing := ⟨true, 1, true⟩

/-- The tracing that an environment asks for. -/
def ofEnvironment (env : Environment) : Tracing where
  enabled := (env.switch "SAMPLEX_DIAGNOSTICS").getD off.enabled
  every := (env.word "SAMPLEX_DIAGNOSTICS_EVERY").getD off.every
  showPivots := (env.switch "SAMPLEX_DIAGNOSTICS_PIVOTS").getD off.showPivots

/-- Whether the step of this number, counted from 1, is traced. -/
def covers (t : Tracing) (step : Nat) : Bool := t.enabled && step % max t.every 1 == 0

end Tracing

end DenseSimplex
