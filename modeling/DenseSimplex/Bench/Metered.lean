/-
  DenseSimplex.Bench.Metered
  ──────────────────────────
  **BOTH PHASES OF A TRIAL, BY THE STOPWATCH.**

  The time of a step goes into four sections, and reports before the steps
  are a fifth:

      select  →  update  →  relabel  →  compact

  To tell them apart, the steps, passes and invocations are made here in a
  monad that has a `Meter`, a stopwatch for the work of a section.  What is
  done in a section and what follows from it is taken from
  `DenseSimplex.Step`, `DenseSimplex.Run` and `DenseSimplex.Bench.Trial`;
  only the order in which sections are entered is written again.

  `Work` is a computation in every such monad.  A host that has a clock does
  it with a stopwatch that runs, and without one it is done with
  `Meter.still`.
-/
import DenseSimplex.Timing
import DenseSimplex.Bench.Trial

namespace DenseSimplex

/-! ## §1. Stopwatches. -/

/-- A stopwatch in a monad: it does the work of a section and charges the
time to the section. -/
structure Meter (m : Type → Type) where
  charge : {β : Type} → Section → (Unit → β) → m β

/-- The stopwatch that stands still. -/
def Meter.still : Meter Id where
  charge _ work := work ()

/-- A piece of work that tells its sections apart. -/
structure Work (β : Type) where
  run : {m : Type → Type} → [Monad m] → Meter m → m β

/-- Work can be done without a clock. -/
instance {β : Type} : CoeFun (Work β) fun _ => Unit → β where
  coe work := fun _ => work.run Meter.still

/-! ## §2. Steps and passes. -/

namespace Meter

variable {m : Type → Type} [Monad m] {ω τ γ : Type} [Scalar τ] [Element ω τ]

/-- Exchange the labels of a pivot, and drop its column if an artificial
variable moved into it. -/
def relabelled (meter : Meter m) (d : Dictionary τ) (row col : Nat) :
    m (Except (Fault τ) (Dictionary τ × Option Int)) := do
  match ← meter.charge .relabel fun _ => d.exchangeLabels row col with
  | .error fault => pure (.error fault)
  | .ok (leaving, exchanged) =>
      if isArtificial leaving then
        let dropped ← meter.charge .compact fun _ => exchanged.dropColumn col
        pure (dropped.map fun d => (d, some leaving))
      else pure (.ok (exchanged, none))

/-- Make a pivot that was chosen. -/
def make (meter : Meter m) (s : Settings ω) (w : Walk τ γ) (c : Choice τ) :
    m (Stepped ω τ γ) := do
  let pivoted ← meter.charge .update fun _ =>
    w.dictionary.tableau.pivot (s.elimination τ) c.row c.col
  match pivoted with
  | .error fault => pure ⟨w, [], .error fault⟩
  | .ok (_, tableau) =>
      let updated := { w.dictionary with tableau := tableau }
      match ← meter.charge .update fun _ => Walk.violation s tableau with
      | some (k, v) =>
          pure ⟨{ w with dictionary := updated }, [.violated k v c.row c.col],
            .error (.negativeRhs k v c.row c.col)⟩
      | none =>
          let relabelled ← meter.relabelled updated c.row c.col
          pure (Walk.settle s w c updated relabelled)

variable [Source γ]

/-- Choose a pivot and make it. -/
def step (meter : Meter m) (s : Settings ω) (w : Walk τ γ) : m (Stepped ω τ γ) := do
  match ← meter.charge .select fun _ =>
    Selection.ofDictionary (s.limits τ) w.dictionary w.source with
  | (.noPivot, after) => pure ⟨{ w with source := after }, [], .ok .optimal⟩
  | (.unbounded col, after) => pure ⟨{ w with source := after }, [], .ok (.unbounded col)⟩
  | (.found choice, after) => meter.make s { w with source := after } choice

/-- One pass of the loop. -/
def pass (meter : Meter m) (terms : Terms ω) (i : Invocation ω τ γ) : m (Passed ω τ γ) :=
  match i.spentLimit terms with
  | some limit => pure ⟨i, [.budgetSpent limit], .done .budgetExhausted⟩
  | none => do
      let (published, reported) ← meter.charge .report fun _ => (i.publish, i.report terms)
      let stepped ← meter.step terms.settings i.walk
      let passed := published.conclude terms stepped
      pure { passed with journal := reported ++ passed.journal }

/-- Passes until one of them ends the invocation. -/
def passes (meter : Meter m) (terms : Terms ω) :
    Nat → Invocation ω τ γ → m (Invocation.Ended ω τ γ)
  | 0, i => pure ⟨i, [], .error .counterOverflow⟩
  | room + 1, i => do
      let passed ← meter.pass terms i
      match passed.verdict with
      | .stopped fault => pure ⟨passed.invocation, passed.journal, .error fault⟩
      | .done status => pure ⟨passed.invocation, passed.journal, .ok status⟩
      | .goOn =>
          let rest ← meter.passes terms room passed.invocation
          pure { rest with journal := passed.journal ++ rest.journal }

/-! ## §3. Invocations and phases. -/

/-- One invocation on a dictionary. -/
def run (meter : Meter m) (loop : Loop ω γ) (clock : Nat → Bool) (d : Dictionary τ) :
    m (Ran ω τ γ) :=
  if UInt64.size ≤ loop.invocations + 1 then pure ⟨loop, d, [], .error .counterOverflow⟩
  else
    let begun := { loop with invocations := loop.invocations + 1 }
    match loop.settings.budget.draw loop.source with
    | .error cause => pure ⟨begun, d, [], .error (.draw cause)⟩
    | .ok (limit, source) => do
        let drawn := { begun with source := source }
        let ended ← meter.passes ⟨loop.settings, limit, clock⟩ (UInt64.size - loop.totalSteps)
          ⟨drawn.walk d, 0, drawn.shared⟩
        pure (drawn.close
          (.started drawn.invocations d.tableau.height d.tableau.width d.phase d.artificials limit)
          ended)

/-- Invoke the loop until it reports anything but a spent budget. -/
def phaseTwo (meter : Meter m) (seed : Nat) :
    Nat → Loop ω γ → Dictionary τ → m (PhaseTwo ω τ γ)
  | 0, loop, _ => pure ⟨loop, [], 0, .error (.failed (.noConvergence seed maxInvocations))⟩
  | left + 1, loop, d => do
      let ran ← meter.run loop (fun _ => false) d
      match ran.result with
      | .error fault => pure ⟨ran.loop, ran.journal, 0, .error (.stopped fault)⟩
      | .ok outcome =>
          if outcome.status = .budgetExhausted then
            let rest ← meter.phaseTwo seed left ran.loop ran.dictionary
            pure { rest with
              journal := ran.journal ++ rest.journal
              steps := outcome.steps + rest.steps }
          else pure ⟨ran.loop, ran.journal, outcome.steps, .ok outcome⟩

end Meter

/-- Both phases on a program whose loop and dictionary are ready, as work
for a stopwatch. -/
def Trial.work {ω : Type} (τ : Type) {γ : Type} [ReportScalar ω] [Scalar τ] [Element ω τ]
    [Source γ] (tracing : Tracing) (seed : Nat) (program : LinearProgram ω) (loop : Loop ω γ)
    (d : Dictionary τ) : Work (Trial ω τ) where
  run meter := do
    let first ← meter.run loop (fun _ => false) d
    match first.result with
    | .error fault => pure ⟨tracing, first.journal, .error (.stopped fault)⟩
    | .ok outcome =>
        if outcome.status = .unbounded then
          pure ⟨tracing, first.journal, .error (.failed (.unboundedPhaseOne seed))⟩
        else if outcome.artificials = 0 then
          let second ← meter.phaseTwo seed maxInvocations first.loop
            (program.installObjective first.dictionary)
          pure (join τ tracing seed program first outcome second)
        else
          pure ⟨tracing, first.journal,
            .ok (report seed program outcome outcome 0 first.loop.invocations)⟩

end DenseSimplex
