/-
  DenseSimplex.Run
  ────────────────
  **INVOCATIONS: STEPS UNTIL THERE IS SOMETHING TO REPORT.**

  An invocation repeats steps until the objective is optimal or unbounded,
  the last artificial variable has left, or the step budget is spent.  The
  budget counts in phase 2 only: phase 1 is never interrupted.  One pass
  of the loop (`Invocation.pass`):

      budget spent?  →  report  →  step  →  feasible?

  The clock is a parameter: it says for each pass whether a report is due.
  Every pass that does not end the invocation makes a pivot, and pivots are
  counted in a 64-bit word; so the words left above the counter bound the
  number of passes, and the recursion is on that room (`Invocation.passes`).

    * `Loop`      settings, a source of coins and counters, kept between
                  invocations, so that a series of budgeted invocations
                  draws one random sequence;
    * `Loop.run`  one invocation;
    * `pivot`     one invocation with the caller's own source.
-/
import DenseSimplex.Step

namespace DenseSimplex

/-! ## §1. One pass. -/

/-- What stays fixed during an invocation: the settings, the limit on its
steps in phase 2, and the clock, which says before each step whether a
report is due. -/
structure Terms (ω : Type) where
  settings : Settings ω
  limit : Option Nat
  clock : Nat → Bool

/-- An invocation under way: where its loop stands, the number of its own
steps, and the content of the shared cell, if progress is shared. -/
structure Invocation (ω τ γ : Type) where
  walk : Walk τ γ
  steps : Nat
  shared : Option (Snapshot ω)

/-- How a pass ends: the invocation goes on, it ends with a status, or a
fault stops it. -/
inductive Verdict (τ : Type) where
  | goOn
  | done (status : Status)
  | stopped (fault : Fault τ)

/-- What a pass leaves behind. -/
structure Passed (ω τ γ : Type) where
  invocation : Invocation ω τ γ
  journal : Journal ω τ
  verdict : Verdict τ

namespace Invocation

variable {ω τ γ : Type} [Scalar τ] [Element ω τ]

/-- How far the invocation has come. -/
def snapshot (i : Invocation ω τ γ) : Snapshot ω := Snapshot.ofDictionary i.steps i.walk.dictionary

/-- Write the present snapshot to the shared cell, if there is one. -/
def publish (i : Invocation ω τ γ) : Invocation ω τ γ :=
  { i with shared := i.shared.map fun _ => i.snapshot }

/-- The limit that is reached, if it counts already. -/
def spentLimit (terms : Terms ω) (i : Invocation ω τ γ) : Option Nat :=
  match i.walk.dictionary.phase, terms.limit with
  -- phase 1 is never interrupted
  | .two, some limit => if limit ≤ i.steps then some limit else none
  | _, _ => none

/-- The report before a step. -/
def report (terms : Terms ω) (i : Invocation ω τ γ) : Journal ω τ :=
  if terms.clock i.steps then [.observed i.snapshot] else []

/-- Whether a pivot was the one that made the basis feasible. -/
def becameFeasible (d : Dictionary τ) (eliminated : Option Int) : Bool :=
  eliminated.isSome && d.artificials == 0

/-- The events of a pivot that was made as step number `step`. -/
def pivotEvents (d : Dictionary τ) (step : Nat) (choice : Choice τ) (eliminated : Option Int) :
    Journal ω τ :=
  .pivoted step choice d.objective d.artificials ::
    (if becameFeasible d eliminated then [.feasible step d.objective] else [])

/-- What the result of a step means for the invocation. -/
def conclude (terms : Terms ω) (i : Invocation ω τ γ) (stepped : Stepped ω τ γ) :
    Passed ω τ γ :=
  let next := { i with walk := stepped.walk }
  let d := stepped.walk.dictionary
  match stepped.result with
  | .error fault => ⟨next, stepped.journal, .stopped fault⟩
  | .ok .optimal => ⟨next, stepped.journal, .done .optimal⟩
  | .ok (.unbounded col) =>
      match d.rightLabel col with
      | .error fault => ⟨next, stepped.journal, .stopped fault⟩
      | .ok id => ⟨next, stepped.journal ++ [.unbounded col id], .done .unbounded⟩
  | .ok (.pivoted choice eliminated) =>
      let after := { next with steps := i.steps + 1 }
      let journal := stepped.journal ++ pivotEvents d after.steps choice eliminated
      if becameFeasible d eliminated && !terms.settings.continueAfterFeasible then
        ⟨after, journal, .done .feasible⟩
      else ⟨after, journal, .goOn⟩

/-- One pass of the loop. -/
def pass [Source γ] (terms : Terms ω) (i : Invocation ω τ γ) : Passed ω τ γ :=
  match spentLimit terms i with
  | some limit => ⟨i, [.budgetSpent limit], .done .budgetExhausted⟩
  | none =>
      let passed := conclude terms i.publish (i.walk.step terms.settings)
      { passed with journal := report terms i ++ passed.journal }

/-! ## §2. All passes. -/

/-- What an invocation leaves behind when its passes are over. -/
structure Ended (ω τ γ : Type) where
  invocation : Invocation ω τ γ
  journal : Journal ω τ
  result : Except (Fault τ) Status

/-- Passes until one of them ends the invocation; `room` is the number of
pivots that the counter still has words for. -/
def passes [Source γ] (terms : Terms ω) : Nat → Invocation ω τ γ → Ended ω τ γ
  | 0, i => ⟨i, [], .error .counterOverflow⟩
  | room + 1, i =>
      let passed := pass terms i
      match passed.verdict with
      | .stopped fault => ⟨passed.invocation, passed.journal, .error fault⟩
      | .done status => ⟨passed.invocation, passed.journal, .ok status⟩
      | .goOn =>
          let rest := passes terms room passed.invocation
          { rest with journal := passed.journal ++ rest.journal }

/-- All passes of an invocation. -/
def run [Source γ] (terms : Terms ω) (i : Invocation ω τ γ) : Ended ω τ γ :=
  passes terms (UInt64.size - i.walk.totalSteps) i

/-- The report of an invocation that ended with a status. -/
def outcome (i : Invocation ω τ γ) (status : Status) : Outcome ω where
  status := status
  steps := i.steps
  columns := i.walk.dictionary.tableau.width
  artificials := i.walk.dictionary.artificials
  objective := Element.widen i.walk.dictionary.objective

end Invocation

/-! ## §3. Loops. -/

/-- A loop that can be run again and again: its settings, the steps it
traces, its source of coins, the shared cell, and how many pivots and
invocations it has made. -/
structure Loop (ω γ : Type) where
  settings : Settings ω
  tracing : Tracing
  source : γ
  shared : Option (Snapshot ω)
  totalSteps : Nat
  invocations : Nat

/-- What an invocation leaves behind: the loop, the dictionary, the journal
and the outcome. -/
structure Ran (ω τ γ : Type) where
  loop : Loop ω γ
  dictionary : Dictionary τ
  journal : Journal ω τ
  result : Except (Fault τ) (Outcome ω)

namespace Loop

variable {ω γ : Type}

/-- A loop with a source of coins, for settings that make sense. -/
def create [Scalar ω] (settings : Settings ω) (tracing : Tracing) (source : γ) :
    Except (SettingsError ω) (Loop ω γ) :=
  match settings.validate with
  | .ok () => .ok ⟨settings, tracing, source, none, 0, 0⟩
  | .error e => .error e

/-- The loop with a shared cell; one that is there is kept. -/
def share [Zero ω] (loop : Loop ω γ) : Loop ω γ :=
  { loop with shared := some (loop.shared.getD Snapshot.blank) }

/-- The loop with another source of coins. -/
def reseed (loop : Loop ω γ) (source : γ) : Loop ω γ := { loop with source := source }

/-- What the loop's own log shows of a journal. -/
def interest (loop : Loop ω γ) (observed : Bool) : Interest :=
  ⟨loop.settings.verbose, observed, loop.tracing⟩

variable {τ : Type} [Scalar τ] [Element ω τ] [Source γ]

/-- Where the loop stands with a dictionary. -/
def walk (loop : Loop ω γ) (d : Dictionary τ) : Walk τ γ := ⟨d, loop.source, loop.totalSteps⟩

/-- The loop after it walked somewhere. -/
def resume (loop : Loop ω γ) (w : Walk τ γ) : Loop ω γ :=
  { loop with source := w.source, totalSteps := w.totalSteps }

/-- One step on a dictionary, outside any invocation: the loop after it and
what it left behind. -/
def step (loop : Loop ω γ) (d : Dictionary τ) : Loop ω γ × Stepped ω τ γ :=
  let stepped := (loop.walk d).step loop.settings
  (loop.resume stepped.walk, stepped)

/-- The events after the last pass. -/
def closingEvents (invocation : Nat) (o : Outcome ω) : Journal ω τ :=
  (if o.isInfeasible then [.stalled o.artificials] else []) ++ [.finished invocation o]

/-- What is left behind by the loop of an invocation whose passes are
over. -/
def close (loop : Loop ω γ) (opening : Event ω τ) (ended : Invocation.Ended ω τ γ) : Ran ω τ γ :=
  match ended.result with
  | .error fault =>
      let stopped := loop.resume ended.invocation.walk
      ⟨{ stopped with shared := ended.invocation.shared }, ended.invocation.walk.dictionary,
        opening :: ended.journal, .error fault⟩
  | .ok status =>
      -- the shared cell ends up with the last state, not with the last report
      let last := ended.invocation.publish
      let outcome := last.outcome status
      ⟨{ loop.resume last.walk with shared := last.shared }, last.walk.dictionary,
        opening :: ended.journal ++ closingEvents loop.invocations outcome, .ok outcome⟩

/-- One invocation on a dictionary. -/
def run (loop : Loop ω γ) (clock : Nat → Bool) (d : Dictionary τ) : Ran ω τ γ :=
  if UInt64.size ≤ loop.invocations + 1 then ⟨loop, d, [], .error .counterOverflow⟩
  else
    let begun := { loop with invocations := loop.invocations + 1 }
    match loop.settings.budget.draw loop.source with
    | .error cause => ⟨begun, d, [], .error (.draw cause)⟩
    | .ok (limit, source) =>
        let drawn := { begun with source := source }
        let opening : Event ω τ :=
          .started drawn.invocations d.tableau.height d.tableau.width d.phase d.artificials limit
        let ended := Invocation.run ⟨loop.settings, limit, clock⟩
          ⟨drawn.walk d, 0, drawn.shared⟩
        drawn.close opening ended

end Loop

/-- One invocation with the caller's own source of coins, which goes on
behind the last coin if there is an outcome and is left as it was
otherwise. -/
def pivot {ω τ γ : Type} [Scalar ω] [Scalar τ] [Element ω τ] [Source γ] (settings : Settings ω)
    (tracing : Tracing) (clock : Nat → Bool) (d : Dictionary τ) (source : γ) :
    Except (SettingsError ω) (Ran ω τ γ) := do
  let loop ← Loop.create settings tracing source
  pure (loop.run clock d)

/-- The source that a caller goes on with after an invocation of its
own. -/
def Ran.nextSource {ω τ γ : Type} (ran : Ran ω τ γ) (before : γ) : γ :=
  match ran.result with
  | .ok _ => ran.loop.source
  | .error _ => before

end DenseSimplex
