/-
  DenseSimplex.Main
  ─────────────────
  The benchmark as a program: its host prints to standard output, logs to
  standard error, and works with the files of the system.
-/
import DenseSimplex.Bench.Session

namespace DenseSimplex

/-- The environment variables that the program looks at. -/
def environmentNames : List String :=
  ["SAMPLEX_PREC", "SAMPLEX_EPS_OBJECTIVE", "SAMPLEX_CHECK_INVARIANTS", "SAMPLEX_MAX_BUDGET",
   "SAMPLEX_DIAGNOSTICS", "SAMPLEX_DIAGNOSTICS_EVERY", "SAMPLEX_DIAGNOSTICS_PIVOTS"]

/-- The variables that are set. -/
def readEnvironment : IO Environment := do
  let values ← environmentNames.mapM fun name => do
    let value ← IO.getEnv name
    pure (value.map fun v => (name, v))
  pure (values.filterMap id)

/-- The stopwatch of the system: it adds up what the work of each section
takes. -/
def systemMeter (timers : IO.Ref Timers) : Meter IO where
  charge part work := do
    let start ← IO.monoNanosNow
    let value ← IO.lazyPure work
    let stop ← IO.monoNanosNow
    timers.modify fun t => t.add part (stop - start)
    pure value

/-- Start a lap: sections that have taken no time, and the time. -/
def startLap : IO (IO.Ref Timers × Nat) := do
  let timers ← IO.mkRef Timers.zero
  let start ← IO.monoNanosNow
  pure (timers, start)

/-- End the lap that was started. -/
def endLap (begun : IO.Ref Timers × Nat) : IO Lap := do
  let stop ← IO.monoNanosNow
  let timers ← begun.1.get
  pure ⟨stop - begun.2, timers⟩

/-- The host of the program; it does not show what is logged for debugging
only. -/
def systemHost : Host IO where
  print line := IO.println line
  log record := do
    if record.level ≠ .debug then IO.eprintln s!"[{record.level.name}] {record.text}"
  timed work := do
    let begun ← startLap
    let value ← work.run (systemMeter begun.1)
    let lap ← endLap begun
    pure (value, lap)
  load path := do
    try
      let text ← IO.FS.readFile path
      pure (some text)
    catch _ => pure none
  save path text := do
    try
      IO.FS.writeFile path text
      pure true
    catch _ => pure false

end DenseSimplex

/-- Run the benchmark on the words of the command line. -/
def main (words : List String) : IO UInt32 := do
  let env ← DenseSimplex.readEnvironment
  let exit ← DenseSimplex.runBenchmark DenseSimplex.systemHost words env
  pure (UInt32.ofNat exit.code)
