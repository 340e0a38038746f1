/-
  DenseSimplex.Bench.Summary
  ──────────────────────────
  **TIMES OF A SERIES OF TRIALS, AND COMPARING TWO SERIES.**

  A `Summary` adds up times and counters over the trials of a series.  Two
  series are compared by the time they took per step, so that they need
  not have the same number of trials; a section has regressed if

      current / baseline  >  1 + allowed

  where both are times per step and the baseline took any time at all.
-/
import DenseSimplex.Timing
import DenseSimplex.Bench.Trial

namespace DenseSimplex

/-! ## §1. Summaries. -/

/-- The counters and times of one trial. -/
structure TrialCost where
  phase1Steps : Nat
  phase2Steps : Nat
  invocations : Nat
  elapsed : Nat
  timers : Timers
  deriving DecidableEq, Repr

/-- Times in milliseconds and counters, added up over a series of
trials. -/
structure Summary (ω : Type) where
  totalMs : ω
  selectMs : ω
  updateMs : ω
  compactMs : ω
  totalSteps : Nat
  invocations : Nat
  trials : Nat
  deriving DecidableEq, Repr

namespace Summary

variable {ω : Type}

/-- The summary of no trials. -/
def zero [Zero ω] : Summary ω := ⟨0, 0, 0, 0, 0, 0, 0⟩

/-- The summary with one more trial. -/
def add [ReportScalar ω] (s : Summary ω) (c : TrialCost) : Summary ω where
  totalMs := s.totalMs + milliseconds c.elapsed
  selectMs := s.selectMs + milliseconds c.timers.select
  updateMs := s.updateMs + milliseconds c.timers.update
  compactMs := s.compactMs + milliseconds c.timers.compact
  totalSteps := s.totalSteps + (c.phase1Steps + c.phase2Steps)
  invocations := s.invocations + c.invocations
  trials := s.trials + 1

/-- Whether the counters fit 64-bit words. -/
def fits (s : Summary ω) : Bool :=
  decide (s.totalSteps < UInt64.size ∧ s.invocations < UInt64.size ∧ s.trials < UInt64.size)

/-- The summary of a series, unless a counter runs out of its word.
Counters only grow, so the last value tells. -/
def ofTrials [ReportScalar ω] (costs : List TrialCost) : Option (Summary ω) :=
  let s := costs.foldl add zero
  if s.fits then some s else none

/-! ## §2. Regressions. -/

/-- The time per step; none where there are no steps. -/
def perStep [ReportScalar ω] (time : ω) (steps : Nat) : ω :=
  if steps = 0 then 0 else time / ReportScalar.ofNat steps

end Summary

/-- A section that took longer per step than it may: how many times the
baseline, and both times per step. -/
structure Regression (ω : Type) where
  name : String
  ratio : ω
  baseline : ω
  current : ω
  deriving DecidableEq, Repr

namespace Regression

variable {ω : Type}

/-- The regression of a section from its two times per step, if it is
one. -/
def check [ReportScalar ω] (allowed : ω) (name : String) (baseline current : ω) :
    Option (Regression ω) :=
  if baseline ≤ 0 then none
  else if 1 + allowed < current / baseline then
    some ⟨name, current / baseline, baseline, current⟩
  else none

/-- The text of a regression. -/
def message [Binary ω] (r : Regression ω) : String :=
  let ratio := Binary.fixedTo 2 r.ratio
  let baseline := Binary.fixedTo 4 r.baseline
  let current := Binary.fixedTo 4 r.current
  s!"{r.name} regression {ratio}x (baseline {baseline}ms/step, current {current}ms/step)"

end Regression

namespace Summary

variable {ω : Type}

/-- The sections that are compared, with their times. -/
def sections (s : Summary ω) : List (String × ω) :=
  [("total_time", s.totalMs), ("select_time", s.selectMs), ("update_time", s.updateMs)]

/-- The sections of a series that regressed against a baseline, in
order. -/
def regressions [ReportScalar ω] (baseline current : Summary ω) (allowed : ω) :
    List (Regression ω) :=
  (baseline.sections.zip current.sections).filterMap fun (base, now) =>
    Regression.check allowed base.1 (perStep base.2 baseline.totalSteps)
      (perStep now.2 current.totalSteps)

end Summary

end DenseSimplex
