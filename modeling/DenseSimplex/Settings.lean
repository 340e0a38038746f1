/-
  DenseSimplex.Settings
  ─────────────────────
  **THRESHOLDS, BUDGETS AND SWITCHES OF A PIVOT LOOP.**

  Settings are held in the report type `ω`; a loop narrows the five
  thresholds to the tableau's own type when it starts (`Settings.limits`).

    * `Budget`     how many steps an invocation may take once the basis is
                   feasible: no limit, a fixed one, or one drawn anew for
                   each invocation;
    * `Settings`   everything a loop can be told, and `Settings.validate`,
                   which names the first value that makes no sense;
    * `Overrides`  the settings that the environment can change.
-/
import DenseSimplex.Environment
import DenseSimplex.Random.Source
import DenseSimplex.Number.Layout
import DenseSimplex.Tableau.Pivot

namespace DenseSimplex

/-! ## §1. Step budgets. -/

/-- The number of steps an invocation may take in phase 2. -/
inductive Budget where
  | unlimited
  | fixed (steps : Nat)
  /-- Drawn at the start of each invocation, both bounds included. -/
  | random (low high : Nat)
  deriving DecidableEq, Repr

namespace Budget

/-- A random budget from 1 up to a bound, which is raised to 1 if it is
zero. -/
def upTo (high : Nat) : Budget := .random 1 (max high 1)

/-- The budget where none is asked for. -/
def standard : Budget := .random 1 1000

/-- The limit of one invocation, if there is one. -/
def draw {γ : Type} [Source γ] (budget : Budget) (source : γ) :
    Except Misdraw (Option Nat × γ) :=
  match budget with
  | .unlimited => .ok (none, source)
  | .fixed steps => .ok (some steps, source)
  | .random low high =>
      match Source.drawBetween low high source with
      | .ok (limit, after) => .ok (some limit, after)
      | .error e => .error e

end Budget

/-! ## §2. Settings. -/

/-- The five thresholds. -/
inductive Threshold where
  /-- Objective entries have to exceed it to enter the basis. -/
  | epsObjective
  /-- New entries of at most this magnitude become zero. -/
  | prec
  /-- Entries have to be below its negative to bound a step. -/
  | pivotTol
  /-- Ratios at most this far apart are tied. -/
  | ratioTieTol
  /-- Ratios at or below it are degenerate. -/
  | degenerateTol
  deriving DecidableEq, Repr

namespace Threshold

/-- The name of a threshold in messages. -/
def name : Threshold → String
  | .epsObjective => "eps_objective"
  | .prec => "prec"
  | .pivotTol => "pivot_tol"
  | .ratioTieTol => "ratio_tie_tol"
  | .degenerateTol => "degenerate_tol"

/-- All thresholds, in the order in which they are checked. -/
def all : List Threshold := [.epsObjective, .prec, .pivotTol, .ratioTieTol, .degenerateTol]

theorem mem_all (which : Threshold) : which ∈ all := by cases which <;> decide

end Threshold

/-- The thresholds in the type of the tableau's entries. -/
structure Limits (τ : Type) where
  epsObjective : τ
  prec : τ
  pivotTol : τ
  ratioTieTol : τ
  degenerateTol : τ
  deriving DecidableEq, Repr

/-- What a pivot loop is told.  `reportInterval` is a time in
nanoseconds. -/
structure Settings (ω : Type) where
  epsObjective : ω
  prec : ω
  pivotTol : ω
  ratioTieTol : ω
  degenerateTol : ω
  /-- Compute eliminations with a fused multiply-add. -/
  fused : Bool
  budget : Budget
  /-- Go on into phase 2 when the basis becomes feasible. -/
  continueAfterFeasible : Bool
  /-- Check right-hand sides and labels after every pivot. -/
  checkInvariants : Bool
  /-- The time between two reports to the observer. -/
  reportInterval : Nat
  /-- Log the start and the end of every invocation. -/
  verbose : Bool
  deriving DecidableEq, Repr

/-- Why settings were refused. -/
inductive SettingsError (ω : Type) where
  | threshold (which : Threshold) (value : ω)
  | zeroBudget
  | budgetRange (low high : Nat)
  | zeroReportInterval
  | zeroMonitorInterval
  deriving DecidableEq, Repr

namespace SettingsError

/-- The flaw itself. -/
def flaw {ω : Type} [Binary ω] : SettingsError ω → String
  | .threshold which value =>
      s!"{which.name} must be finite and non-negative, got {Binary.display value}"
  | .zeroBudget => "fixed step budget must be at least 1"
  | .budgetRange low high =>
      s!"step budget range {low}..={high} must be non-empty and start at 1 or more"
  | .zeroReportInterval => "report_interval must be positive"
  | .zeroMonitorInterval => "monitor interval must be non-zero"

/-- The text of the refusal. -/
def message {ω : Type} [Binary ω] (e : SettingsError ω) : String :=
  s!"Invalid settings: {e.flaw}"

end SettingsError

namespace Settings

variable {ω : Type}

/-- The value of a threshold. -/
def threshold (s : Settings ω) : Threshold → ω
  | .epsObjective => s.epsObjective
  | .prec => s.prec
  | .pivotTol => s.pivotTol
  | .ratioTieTol => s.ratioTieTol
  | .degenerateTol => s.degenerateTol

/-- The thresholds for a tableau with entries `τ`. -/
def limits (s : Settings ω) (τ : Type) [Element ω τ] : Limits τ where
  epsObjective := Element.narrow s.epsObjective
  prec := Element.narrow s.prec
  pivotTol := Element.narrow s.pivotTol
  ratioTieTol := Element.narrow s.ratioTieTol
  degenerateTol := Element.narrow s.degenerateTol

/-- How a tableau with entries `τ` is updated. -/
def elimination (s : Settings ω) (τ : Type) [Element ω τ] : Elimination τ :=
  ⟨(s.limits τ).prec, s.fused⟩

/-! ## §3. Settings that make sense. -/

/-- Whether a threshold is finite and not negative. -/
def isSound [Scalar ω] (value : ω) : Bool := Scalar.isFinite value && !decide (value < 0)

/-- The flaw of a budget: a limit of zero steps would end every invocation
before its first pivot, and a range has to hold a number. -/
def budgetFlaw : Budget → Option (SettingsError ω)
  | .fixed 0 => some .zeroBudget
  | .random low high => if low = 0 ∨ high < low then some (.budgetRange low high) else none
  | _ => none

/-- Whether the settings make sense; the first flaw is named. -/
def validate [Scalar ω] (s : Settings ω) : Except (SettingsError ω) Unit :=
  match Threshold.all.find? (fun which => !isSound (s.threshold which)) with
  | some which => .error (.threshold which (s.threshold which))
  | none =>
      match budgetFlaw s.budget with
      | some flaw => .error flaw
      | none => if s.reportInterval = 0 then .error .zeroReportInterval else .ok ()

theorem isSound_of_validate [Scalar ω] {s : Settings ω} (h : s.validate = .ok ())
    (which : Threshold) : isSound (s.threshold which) = true := by
  unfold validate at h
  split at h
  · cases h
  next hnone =>
    have hsound := List.find?_eq_none.1 hnone which which.mem_all
    simpa using hsound

theorem budgetFlaw_of_validate [Scalar ω] {s : Settings ω} (h : s.validate = .ok ()) :
    (budgetFlaw s.budget : Option (SettingsError ω)) = none := by
  unfold validate at h
  split at h
  · cases h
  · split at h
    · cases h
    next hflaw => exact hflaw

end Settings

/-! ## §4. Defaults. -/

/-- The settings that the environment overrides. -/
structure Overrides (ω : Type) where
  prec : Option ω := none
  epsObjective : Option ω := none
  checkInvariants : Option Bool := none
  maxBudget : Option Nat := none

/-- The overrides that an environment asks for. -/
def Overrides.ofEnvironment (env : Environment) : Overrides Float where
  prec := env.float "SAMPLEX_PREC"
  epsObjective := env.float "SAMPLEX_EPS_OBJECTIVE"
  checkInvariants := env.switch "SAMPLEX_CHECK_INVARIANTS"
  maxBudget := env.word "SAMPLEX_MAX_BUDGET"

/-- The default settings for a tableau with entries `τ`. -/
def Settings.standard {ω : Type} [ReportScalar ω] (τ : Type) [Element ω τ]
    (o : Overrides ω) : Settings ω where
  epsObjective := o.epsObjective.getD (Element.defaultEpsObjective τ)
  prec := o.prec.getD (Element.defaultPrec τ)
  pivotTol := 0
  ratioTieTol := Element.defaultRatioTieTol τ
  degenerateTol := 0
  fused := true
  budget := (o.maxBudget.map Budget.upTo).getD Budget.standard
  continueAfterFeasible := false
  checkInvariants := o.checkInvariants.getD true
  reportInterval := 1000000000
  verbose := false

end DenseSimplex
