/-
  DenseSimplex.Bench.Trial
  ────────────────────────
  **SOLVING A RANDOM PROGRAM IN TWO PHASES.**

  A trial draws a program from its seed, runs one invocation for phase 1,
  and, if no artificial variable is left, installs the true objective and
  invokes the loop again until it reports anything but a spent budget.
  The number of invocations of phase 2 is limited, so that a program that
  cycles ends the trial.
-/
import DenseSimplex.Bench.Program
import DenseSimplex.Run

namespace DenseSimplex

/-! ## §1. Results. -/

/-- What a trial is told: the shape of its program, the settings of the
loop, and how often a monitor looks at the progress, in nanoseconds. -/
structure TrialConfig (ω : Type) where
  shape : Shape ω
  settings : Settings ω
  progress : Option Nat

/-- What a trial reports. -/
structure TrialResult (ω : Type) where
  seed : Nat
  status : Status
  infeasible : Bool
  objective : ω
  feasibleObjective : ω
  phase1Steps : Nat
  phase2Steps : Nat
  invocations : Nat
  deriving DecidableEq, Repr

/-- Why a trial has no result. -/
inductive TrialError (ω : Type) where
  /-- The program is no dictionary of the entry type. -/
  | badProgram (entries : String) (seed : Nat) (cause : InputError)
  | badSettings (cause : SettingsError ω)
  | badMonitor (cause : SettingsError ω)
  | unboundedPhaseOne (seed : Nat)
  | noConvergence (seed invocations : Nat)
  deriving DecidableEq, Repr

namespace TrialError

/-- The text of the error, the outermost circumstance first. -/
def message {ω : Type} [Binary ω] : TrialError ω → String
  | .badProgram entries seed cause =>
      s!"building {entries} tableau for seed {seed}: {cause.message}"
  | .badSettings cause => s!"invalid pivot settings: {cause.message}"
  | .badMonitor cause => cause.message
  | .unboundedPhaseOne seed => s!"seed {seed}: phase 1 reported unbounded"
  | .noConvergence seed invocations =>
      s!"seed {seed}: no convergence after {invocations} phase-2 invocations"

end TrialError

/-- A trial without a result: it failed, or a fault stopped it. -/
inductive TrialFailure (ω τ : Type) where
  | failed (error : TrialError ω)
  | stopped (fault : Fault τ)

/-- What a trial leaves behind: the loop it used, the journal of all its
invocations, and its result. -/
structure Trial (ω τ : Type) where
  tracing : Tracing
  journal : Journal ω τ
  result : Except (TrialFailure ω τ) (TrialResult ω)

/-! ## §2. Phase 2. -/

/-- The most invocations of phase 2. -/
def maxInvocations : Nat := 100000

/-- The invocations of phase 2: how often the loop ran, the steps of all
runs, the last outcome, and the journal. -/
structure PhaseTwo (ω τ γ : Type) where
  loop : Loop ω γ
  journal : Journal ω τ
  steps : Nat
  result : Except (TrialFailure ω τ) (Outcome ω)

section

variable {ω τ γ : Type} [Scalar τ] [Element ω τ] [Source γ]

/-- Invoke the loop until it reports anything but a spent budget, at most
as often as there are invocations `left`. -/
def phaseTwo (seed : Nat) : Nat → Loop ω γ → Dictionary τ → PhaseTwo ω τ γ
  | 0, loop, _ => ⟨loop, [], 0, .error (.failed (.noConvergence seed maxInvocations))⟩
  | left + 1, loop, d =>
      let ran := loop.run (fun _ => false) d
      match ran.result with
      | .error fault => ⟨ran.loop, ran.journal, 0, .error (.stopped fault)⟩
      | .ok outcome =>
          if outcome.status = .budgetExhausted then
            let rest := phaseTwo seed left ran.loop ran.dictionary
            { rest with
              journal := ran.journal ++ rest.journal
              steps := outcome.steps + rest.steps }
          else ⟨ran.loop, ran.journal, outcome.steps, .ok outcome⟩

end

/-! ## §3. Trials. -/

/-- Whether an optimum falls short of the value at the feasible point by
more than rounding explains. -/
def fallsShort {ω : Type} [ReportScalar ω] (objective feasible : ω) : Bool :=
  decide (objective < feasible - 1e-6 * (1 + Scalar.magnitude feasible))

namespace TrialResult

variable {ω : Type}

/-- Whether the result is an optimum that falls short. -/
def isSuspect [ReportScalar ω] (r : TrialResult ω) : Bool :=
  r.status == .optimal && !r.infeasible && fallsShort r.objective r.feasibleObjective

/-- The warning about an optimum that falls short. -/
def warning? [ReportScalar ω] [Binary ω] (r : TrialResult ω) : Option Record :=
  if r.isSuspect then
    let found := Binary.scientific r.objective
    let known := Binary.scientific r.feasibleObjective
    some ⟨.warn, s!"seed {r.seed}: objective {found} below known feasible value {known}"⟩
  else none

end TrialResult

namespace Trial

section

variable {ω : Type} (τ : Type) [ReportScalar ω] [Scalar τ] [Element ω τ]

/-- A loop for a trial, with a shared cell if its progress is watched. -/
def openLoop (config : TrialConfig ω) (tracing : Tracing) (seed : Nat) :
    Except (TrialError ω) (Loop ω Generator) := do
  let loop ← (Loop.create config.settings tracing (Generator.ofSeed (UInt64.ofNat seed))).mapError
    .badSettings
  match config.progress with
  | none => pure loop
  | some interval =>
      let _ ← (monitorEvery interval).mapError .badMonitor
      pure loop.share

/-- The program of a seed, and the loop and the dictionary that it is solved
with. -/
def prepare (config : TrialConfig ω) (tracing : Tracing) (seed : Nat) :
    Except (TrialFailure ω τ) (LinearProgram ω × Loop ω Generator × Dictionary τ) :=
  match LinearProgram.generate config.shape seed with
  | .error cause => .error (.stopped (.draw cause))
  | .ok program =>
      match program.dictionary (τ := τ) with
      | .error (.stopped fault) => .error (.stopped fault)
      | .error (.refused cause) => .error (.failed (.badProgram (Element.name ω τ) seed cause))
      | .ok d =>
          match openLoop config tracing seed with
          | .error cause => .error (.failed cause)
          | .ok loop => .ok (program, loop, d)

/-- The result of a trial from the outcome of phase 1, the last outcome, the
steps of phase 2 and the invocations of both. -/
def report (seed : Nat) (program : LinearProgram ω) (first last : Outcome ω)
    (phase2Steps invocations : Nat) : TrialResult ω where
  seed := seed
  status := last.status
  infeasible := last.isInfeasible
  objective := last.objective
  feasibleObjective := program.feasibleObjective
  phase1Steps := first.steps
  phase2Steps := phase2Steps
  invocations := invocations

/-- What both phases leave behind together. -/
def join {γ : Type} (tracing : Tracing) (seed : Nat) (program : LinearProgram ω)
    (first : Ran ω τ γ) (outcome : Outcome ω) (second : PhaseTwo ω τ γ) : Trial ω τ :=
  ⟨tracing, first.journal ++ second.journal,
    second.result.map fun last =>
      report seed program outcome last second.steps second.loop.invocations⟩

/-- Both phases on a program whose loop and dictionary are ready. -/
def solve {γ : Type} [Source γ] (tracing : Tracing) (seed : Nat) (program : LinearProgram ω)
    (loop : Loop ω γ) (d : Dictionary τ) : Trial ω τ :=
  let first := loop.run (fun _ => false) d
  match first.result with
  | .error fault => ⟨tracing, first.journal, .error (.stopped fault)⟩
  | .ok outcome =>
      if outcome.status = .unbounded then
        ⟨tracing, first.journal, .error (.failed (.unboundedPhaseOne seed))⟩
      else if outcome.artificials = 0 then
        -- phase 1 succeeded, or there was nothing to drive out
        join τ tracing seed program first outcome
          (phaseTwo seed maxInvocations first.loop (program.installObjective first.dictionary))
      else
        ⟨tracing, first.journal, .ok (report seed program outcome outcome 0 first.loop.invocations)⟩

/-- The trial of a seed. -/
def run (config : TrialConfig ω) (tracing : Tracing) (seed : Nat) : Trial ω τ :=
  match prepare τ config tracing seed with
  | .error failure => ⟨tracing, [], .error failure⟩
  | .ok (program, loop, d) => solve τ tracing seed program loop d

end

/-- The lines of the log that a trial leaves: those of its invocations,
then the warning about its result. -/
def records {ω τ : Type} [ReportScalar ω] [Binary ω] [Binary τ] [Element ω τ] (verbose : Bool)
    (t : Trial ω τ) : List Record :=
  let closing := match t.result with
    | .ok result => result.warning?.toList
    | .error _ => []
  t.journal.records ⟨verbose, false, t.tracing⟩ ++ closing

end Trial

end DenseSimplex
