/-
  DenseSimplex.Proofs.Metering
  ────────────────────────────
  **A STOPWATCH CHANGES NOTHING.**

  The benchmark solves its programs in a monad with a stopwatch.  Let the
  stopwatch be faithful: whatever it does besides, it hands out the result
  of the work that it was given,

      charge part work  =  (something, then work ()).

  Then every computation on top of it is of this form as well, step by step
  and pass by pass, with the result that there is without a stopwatch
  (`Meter.Faithful.computes_work`).  A host that takes times by faithful
  stopwatches is honest, as the system is (`honest_systemHost`), and what
  the benchmark sees of a trial by an honest host is what is proved of
  `Trial.run` (`TrialView.timed_eq`).
-/
import Mathlib
import DenseSimplex.Main

namespace DenseSimplex

/-! ## §1. Computations with a known result. -/

section

variable {m : Type → Type} [Monad m] {β δ : Type}

/-- A computation does something and then hands out a known result. -/
def Computes (x : m β) (v : β) : Prop := ∃ e : m PUnit, x = (do e; pure v)

variable [LawfulMonad m]

theorem Computes.pure (v : β) : Computes (Pure.pure v : m β) v :=
  ⟨Pure.pure ⟨⟩, by rw [pure_bind]⟩

/-- **One after the other**: what follows needs to be looked at for the
known result only. -/
theorem Computes.bind {x : m β} {v : β} {f : β → m δ} {w : δ} (hx : Computes x v)
    (hf : Computes (f v) w) : Computes (x >>= f) w := by
  obtain ⟨e, rfl⟩ := hx
  obtain ⟨e', he'⟩ := hf
  refine ⟨e >>= fun _ => e', ?_⟩
  rw [bind_assoc, bind_assoc]
  refine bind_congr fun _ => ?_
  rw [pure_bind, he']

/-- The result is known to a function that is applied to it. -/
theorem Computes.map {x : m β} {v : β} (f : β → δ) (hx : Computes x v) :
    Computes (do let y ← x; Pure.pure (f y)) (f v) :=
  hx.bind (.pure (f v))

end

/-! ## §2. Steps and passes. -/

/-- The stopwatch hands out the result of the work that it was given. -/
def Meter.Faithful {m : Type → Type} [Monad m] (meter : Meter m) : Prop :=
  ∀ {β : Type} (part : Section) (done : Unit → β), Computes (meter.charge part done) (done ())

/-- The stopwatch of the system is faithful: reading the clock and adding up
times is all that it does besides. -/
theorem faithful_systemMeter (timers : IO.Ref Timers) : (systemMeter timers).Faithful := by
  intro β part done
  refine ⟨do
    let start ← IO.monoNanosNow
    let stop ← IO.monoNanosNow
    timers.modify fun t => t.add part (stop - start), ?_⟩
  simp only [systemMeter, IO.lazyPure, bind_assoc, pure_bind]

namespace Meter.Faithful

variable {m : Type → Type} [Monad m] [LawfulMonad m] {meter : Meter m} {ω τ γ : Type}

theorem computes_relabelled (h : meter.Faithful) (d : Dictionary τ) (row col : Nat) :
    Computes (meter.relabelled d row col) (d.relabelled row col) := by
  unfold Meter.relabelled Dictionary.relabelled
  refine (h .relabel _).bind ?_
  cases d.exchangeLabels row col with
  | error fault => exact .pure _
  | ok exchanged =>
      obtain ⟨leaving, exchanged⟩ := exchanged
      simp only [bind, Except.bind]
      split
      · refine (h .compact _).bind ?_
        cases exchanged.dropColumn col <;> exact .pure _
      · exact .pure _

variable [Scalar τ] [Element ω τ]

/-- **A pivot by the stopwatch is the pivot.** -/
theorem computes_make (h : meter.Faithful) (s : Settings ω) (w : Walk τ γ) (c : Choice τ) :
    Computes (meter.make s w c) (w.make s c) := by
  unfold Meter.make Walk.make
  refine (h .update _).bind ?_
  cases w.dictionary.tableau.pivot (s.elimination τ) c.row c.col with
  | error fault => exact .pure _
  | ok pivoted =>
      obtain ⟨pivot, tableau⟩ := pivoted
      refine (h .update _).bind ?_
      dsimp only
      cases Walk.violation s tableau with
      | some violated => exact .pure _
      | none => exact (h.computes_relabelled _ c.row c.col).map _

variable [Source γ]

/-- **A step by the stopwatch is the step.** -/
theorem computes_step (h : meter.Faithful) (s : Settings ω) (w : Walk τ γ) :
    Computes (meter.step s w) (w.step s) := by
  unfold Meter.step Walk.step
  refine (h .select _).bind ?_
  obtain ⟨selection, after⟩ := Selection.ofDictionary (s.limits τ) w.dictionary w.source
  cases selection with
  | noPivot => exact .pure _
  | unbounded col => exact .pure _
  | found choice => exact h.computes_make s _ choice

theorem computes_pass (h : meter.Faithful) (terms : Terms ω) (i : Invocation ω τ γ) :
    Computes (meter.pass terms i) (i.pass terms) := by
  unfold Meter.pass Invocation.pass
  cases i.spentLimit terms with
  | some limit => exact .pure _
  | none =>
      refine (h .report _).bind ?_
      exact (h.computes_step terms.settings i.walk).map _

/-- **The passes by the stopwatch are the passes**, by induction on the room
that the counter has. -/
theorem computes_passes (h : meter.Faithful) (terms : Terms ω) (room : Nat)
    (i : Invocation ω τ γ) : Computes (meter.passes terms room i) (i.passes terms room) := by
  induction room generalizing i with
  | zero => exact .pure _
  | succ room ih =>
      unfold Meter.passes Invocation.passes
      refine (h.computes_pass terms i).bind ?_
      dsimp only
      cases (i.pass terms).verdict with
      | stopped fault => exact .pure _
      | done status => exact .pure _
      | goOn => exact (ih _).map _

/-! ## §3. Invocations and phases. -/

theorem computes_run (h : meter.Faithful) (loop : Loop ω γ) (clock : Nat → Bool)
    (d : Dictionary τ) : Computes (meter.run loop clock d) (loop.run clock d) := by
  unfold Meter.run Loop.run
  split
  · exact .pure _
  · cases loop.settings.budget.draw loop.source with
    | error cause => exact .pure _
    | ok drawn => exact (h.computes_passes _ _ _).map _

/-- **Phase 2 by the stopwatch is phase 2**, by induction on the invocations
that are left. -/
theorem computes_phaseTwo (h : meter.Faithful) (seed left : Nat) (loop : Loop ω γ)
    (d : Dictionary τ) :
    Computes (meter.phaseTwo seed left loop d) (DenseSimplex.phaseTwo seed left loop d) := by
  induction left generalizing loop d with
  | zero => exact .pure _
  | succ left ih =>
      unfold Meter.phaseTwo DenseSimplex.phaseTwo
      refine (h.computes_run loop _ d).bind ?_
      dsimp only
      cases (loop.run (fun _ => false) d).result with
      | error fault => exact .pure _
      | ok outcome =>
          by_cases hspent : outcome.status = .budgetExhausted
          · simp only [if_pos hspent]
            exact (ih _ _).map _
          · simp only [if_neg hspent]
            exact .pure _

/-- **BOTH PHASES BY THE STOPWATCH ARE BOTH PHASES.**  For every program,
loop and dictionary, and every faithful stopwatch in a lawful monad, the
work of a trial does something and then hands out what `Trial.solve` leaves
behind. -/
theorem computes_work [ReportScalar ω] (h : meter.Faithful) (tracing : Tracing) (seed : Nat)
    (program : LinearProgram ω) (loop : Loop ω γ) (d : Dictionary τ) :
    Computes ((Trial.work τ tracing seed program loop d).run meter)
      (Trial.solve τ tracing seed program loop d) := by
  unfold Trial.work Trial.solve
  refine (h.computes_run loop _ d).bind ?_
  dsimp only
  cases (loop.run (fun _ => false) d).result with
  | error fault => exact .pure _
  | ok outcome =>
      by_cases hunbounded : outcome.status = .unbounded
      · simp only [if_pos hunbounded]
        exact .pure _
      · simp only [if_neg hunbounded]
        by_cases hdone : outcome.artificials = 0
        · simp only [if_pos hdone]
          exact (h.computes_phaseTwo _ _ _ _).map _
        · simp only [if_neg hdone]
          exact .pure _

end Meter.Faithful

/-! ## §4. What the benchmark sees of a trial. -/

/-- The trial of a seed, without a stopwatch. -/
def TrialView.ofSeed (a : Arguments) (env : Environment) (seed : Nat) : TrialView :=
  let tracing := Tracing.ofEnvironment env
  match a.precision with
  | .single => ofTrial a.verbose (Trial.run Float32 (a.config env) tracing seed)
  | .double => ofTrial a.verbose (Trial.run Float (a.config env) tracing seed)

section

variable {m : Type → Type} [Monad m]

/-- A host takes times by faithful stopwatches: it starts one, does the
work by it, and reads the lap off. -/
def Host.Honest (host : Host m) : Prop :=
  ∃ (σ : Type) (start : m σ) (meter : σ → Meter m) (lap : σ → m Lap),
    (∀ s, (meter s).Faithful)
    ∧ ∀ {β : Type} (work : Work β), host.timed work = (do
        let s ← start
        let value ← work.run (meter s)
        let lap ← lap s
        pure (value, lap))

/-- **The system is an honest host.** -/
theorem honest_systemHost : systemHost.Honest :=
  ⟨_, startLap, fun begun => systemMeter begun.1, endLap,
    fun begun => faithful_systemMeter begun.1, fun _ => rfl⟩

variable [LawfulMonad m] {host : Host m}

/-- Work whose result every faithful stopwatch computes has this result for
an honest host. -/
theorem Host.Honest.timed_eq (h : host.Honest) {β : Type} {work : Work β} {v : β}
    (hwork : ∀ meter : Meter m, meter.Faithful → Computes (work.run meter) v) :
    ∃ lap : m Lap, host.timed work = (do
      let lap ← lap
      pure (v, lap)) := by
  obtain ⟨σ, start, meter, lap, hmeter, htimed⟩ := h
  choose done hdone using fun s => hwork (meter s) (hmeter s)
  refine ⟨start >>= fun s => done s >>= fun _ => lap s, ?_⟩
  rw [htimed]
  simp only [hdone, bind_assoc, pure_bind]

theorem TrialView.timedAs_eq (h : host.Honest) {τ : Type} [Scalar τ] [Binary τ]
    [Element Float τ] (a : Arguments) (env : Environment) (seed : Nat) :
    ∃ lap : m Lap, timedAs τ host a env seed = (do
      let lap ← lap
      pure (ofTrial a.verbose (Trial.run τ (a.config env) (Tracing.ofEnvironment env) seed),
        lap)) := by
  unfold timedAs Trial.run
  dsimp only
  cases Trial.prepare τ (a.config env) (Tracing.ofEnvironment env) seed with
  | error failure => exact ⟨pure .zero, by rw [pure_bind]⟩
  | ok prepared =>
      obtain ⟨program, loop, d⟩ := prepared
      obtain ⟨lap, hlap⟩ := h.timed_eq fun _ hmeter =>
        hmeter.computes_work (Tracing.ofEnvironment env) seed program loop d
      exact ⟨lap, by simp only [hlap, bind_assoc, pure_bind]⟩

/-- **THE BENCHMARK SEES `Trial.run`.**  Whatever else an honest host does
to take the time of a trial, its log, its result and why it has none are
those of the trial that is run without a stopwatch. -/
theorem TrialView.timed_eq (h : host.Honest) (a : Arguments) (env : Environment) (seed : Nat) :
    ∃ lap : m Lap, timed host a env seed = (do
      let lap ← lap
      pure (ofSeed a env seed, lap)) := by
  unfold timed ofSeed
  cases a.precision with
  | single => exact timedAs_eq h a env seed
  | double => exact timedAs_eq h a env seed

end

end DenseSimplex
