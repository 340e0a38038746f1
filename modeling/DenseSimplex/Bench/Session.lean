/-
  DenseSimplex.Bench.Session
  ──────────────────────────
  **A RUN OF THE BENCHMARK.**

  The benchmark prints a heading, one row for each trial and the totals;
  then it saves the summary and compares it with a baseline, where it is
  asked to.  Everything it needs from outside is a `Host`: printing,
  logging, a stopwatch and files.  With a host in `IO` this is the
  program; with a pure host it is a function that can be reasoned about.

  A run ends with an `Exit`: success, an error, arguments that cannot be
  read, or a fault.  A command line that asks for the help page gets it and
  nothing else, which is a success.
-/
import DenseSimplex.Bench.SummaryText
import DenseSimplex.Bench.Arguments
import DenseSimplex.Bench.Metered

namespace DenseSimplex

/-! ## §1. Hosts and exits. -/

/-- The time that a piece of work took, in all and by section. -/
structure Lap where
  elapsed : Nat
  timers : Timers
  deriving DecidableEq, Repr

/-- No time at all. -/
def Lap.zero : Lap := ⟨0, .zero⟩

/-- The services that the benchmark needs. -/
structure Host (m : Type → Type) where
  /-- Print a line. -/
  print : String → m Unit
  /-- Hand a line to the log. -/
  log : Record → m Unit
  /-- Do a piece of work and take its time. -/
  timed : {β : Type} → Work β → m (β × Lap)
  /-- The content of a file, if it can be read. -/
  load : String → m (Option String)
  /-- Replace the content of a file; whether that worked. -/
  save : String → String → m Bool

/-- How a run ends. -/
inductive Exit where
  | success
  | error
  | badArguments
  | fault
  deriving DecidableEq, Repr

namespace Exit

/-- The exit code. -/
def code : Exit → Nat
  | .success => 0
  | .error => 1
  | .badArguments => 2
  | .fault => 101

end Exit

/-! ## §2. The table. -/

/-- The text with blanks after it up to a width on the left: columns of the
table are right-aligned and separated by a blank. -/
def tableRow (cells : List (Nat × String)) : String :=
  " ".intercalate (cells.map fun (width, text) => padLeft width text)

/-- The widths of the columns of the table. -/
def tableWidths : List Nat := [8, 10, 8, 8, 6, 16, 10]

/-- The heading of the table. -/
def tableHead : List String :=
  [tableRow (tableWidths.zip
    ["seed", "status", "phase1", "phase2", "calls", "objective", "time_ms"]),
   String.ofList (List.replicate 74 '-')]

/-- The row of a trial. -/
def trialRow (r : TrialResult Float) (elapsed : Nat) : String :=
  tableRow (tableWidths.zip
    [toString r.seed, if r.infeasible then "Infeasible" else r.status.text,
     toString r.phase1Steps, toString r.phase2Steps, toString r.invocations,
     Binary.scientificTo 8 r.objective, Binary.fixedTo 3 (milliseconds elapsed : Float)])

/-- The lines before the table. -/
def headingLines (a : Arguments) (program : LinearProgram Float) : List String :=
  let shape := s!"{program.height} rows x {a.vars} vars"
  ["Samplex Benchmarks", "==================", "",
   s!"{a.precision.name} precision, {shape}, Z={program.artificials}, {a.trials} trials", ""]

/-- The lines after the table. -/
def totalLines (s : Summary Float) : List String :=
  let time := Binary.fixedTo 3 s.totalMs
  ["", s!"{s.trials} trials, {s.totalSteps} steps, {s.invocations} invocations, {time} ms"]

/-! ## §3. Trials. -/

namespace Arguments

/-- The settings that arguments and environment ask for. -/
def settings (a : Arguments) (env : Environment) : Settings Float :=
  let overrides := Overrides.ofEnvironment env
  let standard : Settings Float := match a.precision with
    | .single => Settings.standard Float32 overrides
    | .double => Settings.standard Float overrides
  { standard with
    budget := (a.budget.map Budget.fixed).getD standard.budget
    verbose := a.verbose }

/-- What every trial is told. -/
def config (a : Arguments) (env : Environment) : TrialConfig Float where
  shape := ⟨a.vars, a.leRows, a.eqRows, a.density⟩
  settings := a.settings env
  progress := a.progressMs.map (· * 1000000)

/-- The seed of a trial, counted from the first one; seeds are 64-bit words
and do not start again at zero. -/
def trialSeed (a : Arguments) (index : Nat) : Option Nat :=
  if a.seed + index < UInt64.size then some (a.seed + index) else none

end Arguments

/-- The bytes of the result of a trial with its times. -/
def resultBytes : Nat := 152

/-- A trial as the benchmark sees it: the lines of its log, and its result
or why there is none. -/
structure TrialView where
  records : List Record
  result : Except Exit (TrialResult Float)

namespace TrialView

/-- The view of a trial with entries of either type; an error is an error
and a fault a fault. -/
def ofTrial {τ : Type} [Binary τ] [Element Float τ] (verbose : Bool) (t : Trial Float τ) :
    TrialView where
  records := t.records verbose
  result := t.result.mapError fun
    | .failed _ => .error
    | .stopped _ => .fault

section

variable {m : Type → Type} [Monad m]

/-- The trial of a seed with entries of one type, and the time of both
phases; a trial that cannot be prepared takes none. -/
def timedAs (τ : Type) [Scalar τ] [Binary τ] [Element Float τ] (host : Host m) (a : Arguments)
    (env : Environment) (seed : Nat) : m (TrialView × Lap) :=
  let tracing := Tracing.ofEnvironment env
  match Trial.prepare τ (a.config env) tracing seed with
  | .error failure => pure (ofTrial a.verbose ⟨tracing, [], .error failure⟩, .zero)
  | .ok (program, loop, d) => do
      let (trial, lap) ← host.timed (Trial.work τ tracing seed program loop d)
      pure (ofTrial a.verbose trial, lap)

/-- The trial of a seed and its time. -/
def timed (host : Host m) (a : Arguments) (env : Environment) (seed : Nat) :
    m (TrialView × Lap) :=
  match a.precision with
  | .single => timedAs Float32 host a env seed
  | .double => timedAs Float host a env seed

end

end TrialView

section

variable {m : Type → Type} [Monad m]

/-- What a lap and a result cost. -/
def trialCost (r : TrialResult Float) (lap : Lap) : TrialCost :=
  ⟨r.phase1Steps, r.phase2Steps, r.invocations, lap.elapsed, lap.timers⟩

/-- The trial of a seed with its log and its row of the table: what it
cost, or how the run ends without a result. -/
def runTrial (host : Host m) (a : Arguments) (env : Environment) (seed : Nat) :
    ExceptT Exit m TrialCost := do
  let (view, lap) ← (TrialView.timed host a env seed : m (TrialView × Lap))
  view.records.forM fun record => host.log record
  match view.result with
  | .error exit => throw exit
  | .ok result => do
      host.print (trialRow result lap.elapsed)
      pure (trialCost result lap)

/-- Run the trials from `index` on, `left` of them; the first one without a
result ends the run. -/
def runTrials (host : Host m) (a : Arguments) (env : Environment) :
    Nat → Nat → ExceptT Exit m (List TrialCost)
  | 0, _ => pure []
  | left + 1, index =>
      match a.trialSeed index with
      | none => throw .fault
      | some seed => do
          let cost ← runTrial host a env seed
          let costs ← runTrials host a env left (index + 1)
          pure (cost :: costs)

/-! ## §4. The whole run. -/

/-- Compare a summary with a saved one. -/
def compareWith (host : Host m) (path : String) (s : Summary Float) (allowed : Float) :
    m Exit := do
  match (← host.load path).bind Summary.ofText? with
  | none => pure .error
  | some baseline =>
      let regressions := Summary.regressions baseline s allowed
      regressions.forM fun r => host.log ⟨.error, r.message⟩
      pure (if regressions.isEmpty then .success else .error)

/-- Print the totals, then save and compare the summary where this is asked
for. -/
def conclude (host : Host m) (a : Arguments) (s : Summary Float) : m Exit := do
  (totalLines s).forM host.print
  let saved ← match a.saveSummary with
    | some path => host.save path s.toText
    | none => pure true
  if !saved then pure .error
  else
    match a.baseline with
    | some path => compareWith host path s a.maxRegression
    | none => pure .success

/-- Run the benchmark with arguments that were read. -/
def runArguments (host : Host m) (a : Arguments) (env : Environment) : m Exit := do
  match LinearProgram.generate (a.config env).shape a.seed with
  | .error _ => pure .fault
  | .ok program =>
      (headingLines a program ++ tableHead).forM host.print
      -- room for all results is asked for before the first trial
      if !canHold a.trials resultBytes then pure .fault
      else
        match ← (runTrials host a env a.trials 0).run with
        | .error exit => pure exit
        | .ok costs =>
            match Summary.ofTrials costs with
            | none => pure .fault
            | some summary => conclude host a summary

/-- Run the benchmark with the words of a command line. -/
def runBenchmark (host : Host m) (words : List String) (env : Environment) : m Exit :=
  match Arguments.parse words with
  | .error .help => do
      Arguments.helpLines.forM host.print
      pure .success
  | .error .malformed => pure .badArguments
  | .ok a => runArguments host a env

end

end DenseSimplex
