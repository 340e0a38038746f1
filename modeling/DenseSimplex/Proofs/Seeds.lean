/-
  DenseSimplex.Proofs.Seeds
  ─────────────────────────
  **THE SEEDS OF CONSECUTIVE TRIALS.**

  Trial `i` is promised the seed `seed + i`, and seeds are 64-bit words, so
  the promise is

      seed, seed + 1, …, 2 ^ 64 - 1, 0, 1, …          (`Arguments.seeds`).

  The command line takes every word as a seed and as a number of trials, so
  the promise can go past the last word.  The sum is not reduced there: the
  run is stopped by a fault, after the trials before it have been run and
  printed, and nothing is summed up or saved.  As long as no seed starts
  again at zero, the promise is kept (`Arguments.seeds_kept`).

  A trial without a result ends a run in either case; so runs are compared
  as computations, for every host in every lawful monad.
-/
import Mathlib
import DenseSimplex.Bench.Session

namespace DenseSimplex

namespace Arguments

/-! ## §1. What a command line can ask for. -/

/-- The first seed and the number of trials are words. -/
structure InRange (a : Arguments) : Prop where
  seed_lt : a.seed < UInt64.size
  trials_lt : a.trials < UInt64.size

theorem readWord_lt {cs : List Char} {n : Nat} (h : readWord cs = some n) : n < UInt64.size := by
  unfold readWord readNatural at h
  obtain ⟨hdigits, hvalue⟩ := Option.ite_none_right_eq_some.1 h
  obtain rfl := Option.some.inj hvalue
  exact hdigits.2.2

/-- One more option leaves both in range: it sets one of them to a word, or
neither. -/
theorem InRange.withOption {a a' : Arguments} (h : a.InRange) {name value : String}
    (hoption : a.withOption name value = some a') : a'.InRange := by
  obtain ⟨hseed, htrials⟩ := h
  unfold Arguments.withOption at hoption
  dsimp only at hoption
  split at hoption
  all_goals
    first
    | cases hoption
    | obtain ⟨v, hv, rfl⟩ := Option.map_eq_some_iff.1 hoption
  all_goals
    first
    | exact ⟨hseed, htrials⟩
    | exact ⟨hseed, readWord_lt hv⟩
    | exact ⟨readWord_lt hv, htrials⟩

theorem InRange.read {words given : List String} {a a' : Arguments} (h : a.InRange)
    (hread : Arguments.read given a words = .ok a') : a'.InRange := by
  fun_induction Arguments.read given a words with
  | case1 | case2 =>
      cases hread
      exact h
  | case7 _ _ _ _ _ _ _ _ _ _ ih => exact ih ⟨h.seed_lt, h.trials_lt⟩ hread
  | case8 _ _ _ _ _ _ _ _ _ _ hoption _ _ ih => exact ih (h.withOption hoption) hread
  | case10 _ _ _ _ _ _ _ _ _ _ _ hoption _ _ ih => exact ih (h.withOption hoption) hread
  | case3 | case4 | case5 | case6 | case9 | case11 | case12 | case13 => cases hread

/-- **A command line asks for words.** -/
theorem inRange_of_parse {words : List String} {a : Arguments}
    (h : Arguments.parse? words = some a) : a.InRange := by
  unfold Arguments.parse? at h
  cases hread : Arguments.parse words with
  | error refusal =>
      rw [hread] at h
      cases h
  | ok a' =>
      rw [hread] at h
      cases h
      exact InRange.read (a := {}) ⟨by decide, by decide⟩ hread

/-! ## §2. Promised seeds. -/

/-- The seeds that the trials are promised: consecutive words, with zero
after the last one. -/
def seeds (a : Arguments) : List Nat :=
  (List.range a.trials).map fun i => (a.seed + i) % UInt64.size

/-- **Up to the last word, the seeds are consecutive numbers.** -/
theorem take_seeds (a : Arguments) {k : Nat} (hk : k ≤ a.trials) (h : a.seed + k ≤ UInt64.size) :
    a.seeds.take k = List.range' a.seed k := by
  unfold seeds
  rw [← List.map_take, List.take_range, Nat.min_eq_left hk, List.range'_eq_map_range]
  apply List.map_congr_left
  intro i hi
  rw [List.mem_range] at hi
  exact Nat.mod_eq_of_lt (by omega)

theorem seeds_eq (a : Arguments) (h : a.seed + a.trials ≤ UInt64.size) :
    a.seeds = List.range' a.seed a.trials := by
  rw [← a.take_seeds (Nat.le_refl _) h, List.take_of_length_le]
  unfold seeds
  rw [List.length_map, List.length_range]

end Arguments

/-! ## §3. Runs. -/

section

variable {m : Type → Type} [Monad m] (host : Host m) (a : Arguments) (env : Environment)

/-- A seed that is a word is used. -/
theorem runTrials_succ (left : Nat) {index : Nat} (h : a.seed + index < UInt64.size) :
    runTrials host a env (left + 1) index = (do
      let cost ← runTrial host a env (a.seed + index)
      let costs ← runTrials host a env left (index + 1)
      pure (cost :: costs)) := by
  have hseed : a.trialSeed index = some (a.seed + index) := if_pos h
  rw [runTrials, hseed]

/-- A seed past the last word is a fault. -/
theorem runTrials_past (left : Nat) {index : Nat} (h : UInt64.size ≤ a.seed + index) :
    runTrials host a env (left + 1) index = throw .fault := by
  have hseed : a.trialSeed index = none := if_neg (Nat.not_lt.2 h)
  rw [runTrials, hseed]

variable [LawfulMonad m]

/-- **The first trials of a run**, as long as their seeds are words: they
are run in order, and then the others. -/
theorem runTrials_add (k left index : Nat) (h : a.seed + (index + k) ≤ UInt64.size) :
    runTrials host a env (k + left) index = (do
      let first ← (List.range' (a.seed + index) k).mapM (runTrial host a env)
      let rest ← runTrials host a env left (index + k)
      pure (first ++ rest)) := by
  induction k generalizing index with
  | zero => simp
  | succ k ih =>
      have hnext : a.seed + index + 1 = a.seed + (index + 1) := Nat.add_assoc _ _ _
      have hindex : index + 1 + k = index + (k + 1) := by omega
      rw [Nat.succ_add, runTrials_succ host a env _ (by omega), ih (index + 1) (by omega),
        List.range'_succ, List.mapM_cons, hnext, hindex]
      simp

/-- All trials of a run whose seeds are words. -/
theorem runTrials_eq_mapM (h : a.seed + a.trials ≤ UInt64.size) :
    runTrials host a env a.trials 0 = a.seeds.mapM (runTrial host a env) := by
  have hall := runTrials_add host a env a.trials 0 0 (by omega)
  rw [a.seeds_eq h]
  simpa [runTrials] using hall

/-- A run past the last word: the trials up to it, then the fault. -/
theorem runTrials_eq_throw (hseed : a.seed ≤ UInt64.size) (h : UInt64.size < a.seed + a.trials) :
    runTrials host a env a.trials 0 = (do
      let _ ← (a.seeds.take (UInt64.size - a.seed)).mapM (runTrial host a env)
      throw .fault) := by
  obtain ⟨left, hleft⟩ : ∃ left, a.trials = (UInt64.size - a.seed) + (left + 1) :=
    ⟨a.trials - (UInt64.size - a.seed) - 1, by omega⟩
  have hsplit := runTrials_add host a env (UInt64.size - a.seed) (left + 1) 0 (by omega)
  rw [runTrials_past host a env left (by omega), ← hleft, Nat.add_zero] at hsplit
  rw [hsplit, a.take_seeds (by omega) (by omega)]
  simp

/-- **A run whose trials end in a fault**, or without a result before it,
ends so: nothing is summed up, saved or compared. -/
theorem runArguments_of_throw {program : LinearProgram Float}
    (hprogram : LinearProgram.generate (a.config env).shape a.seed = .ok program)
    (hroom : canHold a.trials resultBytes = true) {first : ExceptT Exit m (List TrialCost)}
    (hrun : runTrials host a env a.trials 0 = (do
      let _ ← first
      throw .fault)) :
    runArguments host a env = (do
      (headingLines a program ++ tableHead).forM host.print
      match ← first.run with
      | .error exit => pure exit
      | .ok _ => pure .fault) := by
  unfold runArguments
  rw [hprogram, hrun]
  refine bind_congr fun _ => ?_
  rw [hroom, Bool.not_true, if_neg Bool.false_ne_true, ExceptT.run_bind, bind_assoc]
  refine bind_congr fun ended => ?_
  cases ended with
  | error exit => exact pure_bind _ _
  | ok costs => exact pure_bind _ _

end

/-- **THE PROMISE IS KEPT UP TO THE LAST WORD, AND BROKEN AFTER IT.**
Whatever a command line asks for, its first seed and its number of trials
are words, and for every host and environment:

  * if the seeds need not start again at zero, the trials are those of the
    promised seeds, in order, up to the first one without a result;
  * if they must, just the trials up to the last word are run, and where
    all of them have results, the run ends with a fault: the promised
    trials from seed zero on are not reached, and nothing is summed up,
    saved or compared. -/
theorem Arguments.seeds_kept {words : List String} {a : Arguments}
    (h : Arguments.parse? words = some a) :
    (a.seed < UInt64.size ∧ a.trials < UInt64.size)
    ∧ ∀ {m : Type → Type} [Monad m] [LawfulMonad m] (host : Host m) (env : Environment),
      (a.seed + a.trials ≤ UInt64.size →
        runTrials host a env a.trials 0 = a.seeds.mapM (runTrial host a env))
      ∧ (UInt64.size < a.seed + a.trials →
        runTrials host a env a.trials 0 = (do
            let _ ← (a.seeds.take (UInt64.size - a.seed)).mapM (runTrial host a env)
            throw .fault)
        ∧ ∀ program, LinearProgram.generate (a.config env).shape a.seed = .ok program →
          canHold a.trials resultBytes = true →
            runArguments host a env = (do
              (headingLines a program ++ tableHead).forM host.print
              match ← ((a.seeds.take (UInt64.size - a.seed)).mapM (runTrial host a env)).run with
              | .error exit => pure exit
              | .ok _ => pure .fault)) := by
  obtain ⟨hseed, htrials⟩ := inRange_of_parse h
  refine ⟨⟨hseed, htrials⟩, fun host env => ⟨runTrials_eq_mapM host a env, fun hpast => ?_⟩⟩
  have hrun := runTrials_eq_throw host a env (le_of_lt hseed) hpast
  exact ⟨hrun, fun program hprogram hroom => runArguments_of_throw host a env hprogram hroom hrun⟩

/-- A command line for two trials of the smallest shape, the first one with
the last word as its seed. -/
def Arguments.lastWord : List String :=
  ["--vars=0", "--le-rows=0", "--eq-rows=0", "--trials=2", "--seed=18446744073709551615"]

theorem Arguments.exists_lastWord : ∃ a, Arguments.parse? lastWord = some a
    ∧ a.seed = 18446744073709551615 ∧ a.trials = 2 := by
  have hread : (Arguments.parse? lastWord).map (fun a => (a.seed, a.trials))
      = some (18446744073709551615, 2) := by decide +kernel
  obtain ⟨a, ha, hvalues⟩ := Option.map_eq_some_iff.1 hread
  obtain ⟨hseed, htrials⟩ := Prod.mk.inj hvalues
  exact ⟨a, ha, hseed, htrials⟩

/-- Its second trial is promised seed zero, and what it gets is a fault. -/
theorem Arguments.seeds_kept_lastWord :
    ∃ a, Arguments.parse? lastWord = some a ∧ a.seeds = [18446744073709551615, 0]
      ∧ ∀ {m : Type → Type} [Monad m] [LawfulMonad m] (host : Host m) (env : Environment),
        runTrials host a env 2 0 = (do
          let _ ← runTrial host a env 18446744073709551615
          throw .fault) := by
  obtain ⟨a, ha, hseed, htrials⟩ := exists_lastWord
  have hseeds : a.seeds = [18446744073709551615, 0] := by
    unfold seeds
    rw [hseed, htrials]
    decide
  obtain ⟨-, hruns⟩ := seeds_kept ha
  refine ⟨a, ha, hseeds, fun host env => ?_⟩
  have hrun := ((hruns host env).2 (by rw [hseed, htrials]; decide)).1
  rw [hseeds, hseed, htrials] at hrun
  rw [hrun]
  simp [UInt64.size]

/-- A host that prints and saves nothing and whose stopwatch stands
still. -/
def Host.still : Host Id where
  print _ := ()
  log _ := ()
  timed work := (work (), ⟨0, ⟨0, 0, 0, 0, 0⟩⟩)
  load _ := none
  save _ _ := true

/-- **Both promised trials have results, but the run has none**: it stops
at the sum that is no word. -/
theorem Arguments.lastWord_stops :
    ∃ a, Arguments.parse? lastWord = some a
      ∧ (Id.run (a.seeds.mapM (runTrial Host.still a [])).run).toBool = true
      ∧ Id.run (runTrials Host.still a [] a.trials 0).run = .error .fault := by
  have hboth : (Arguments.parse? lastWord).any (fun a =>
      (Id.run (a.seeds.mapM (runTrial Host.still a [])).run).toBool
        && decide (Id.run (runTrials Host.still a [] a.trials 0).run = .error .fault)) = true := by
    decide +kernel
  obtain ⟨a, ha, hruns⟩ := (Option.any_eq_true _ _).1 hboth
  rw [Bool.and_eq_true, decide_eq_true_iff] at hruns
  exact ⟨a, ha, hruns⟩

end DenseSimplex
