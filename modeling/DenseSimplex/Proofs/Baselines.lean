/-
  DenseSimplex.Proofs.Baselines
  ─────────────────────────────
  **TWO SERIES OF TRIALS ARE COMPARED BY THEIR POOLED TIMES PER STEP.**

  A series enters a comparison through sums over its trials: the steps of
  all of them, and the nanoseconds that each compared section took.  In
  exact arithmetic all that is looked at is

      pooled time per step  =  Σ time / Σ steps        (zero without steps),

  in milliseconds, and a section is reported iff the pooled time `b` of the
  baseline and the pooled time `c` of the current series have

      0 < b    and    (1 + allowed) · b < c

  (`Summary.regressions_pooled`).  Neither the order of the trials nor
  their number matters: a series that is run again and again as a whole has
  the same pooled times (`pooledPerStep_repeated`).

  Counters are summed up without bounds here; the benchmark has a summary
  exactly as long as they fit their words (`Summary.ofTrials_eq`).
-/
import Mathlib
import DenseSimplex.Bench.Summary

namespace DenseSimplex

/-! ## §1. What is summed up. -/

namespace TrialCost

/-- The steps of both phases. -/
def steps (c : TrialCost) : Nat := c.phase1Steps + c.phase2Steps

/-- The times that are compared: their names, in the order of the report,
and the nanoseconds of a trial that count for them. -/
def compared : List (String × (TrialCost → Nat)) :=
  [("total_time", elapsed), ("select_time", (·.timers.select)), ("update_time", (·.timers.update))]

end TrialCost

/-- The sum of a counter over a series. -/
def pooled (count : TrialCost → Nat) (costs : List TrialCost) : Nat := (costs.map count).sum

theorem pooled_cons (count : TrialCost → Nat) (c : TrialCost) (costs : List TrialCost) :
    pooled count (c :: costs) = count c + pooled count costs := by
  unfold pooled
  rw [List.map_cons, List.sum_cons]

theorem pooled_append (count : TrialCost → Nat) (costs more : List TrialCost) :
    pooled count (costs ++ more) = pooled count costs + pooled count more := by
  unfold pooled
  rw [List.map_append, List.sum_append]

theorem pooled_perm (count : TrialCost → Nat) {costs costs' : List TrialCost}
    (h : costs.Perm costs') : pooled count costs = pooled count costs' :=
  (h.map count).sum_eq

/-- A series that is run `k` times, one after the other. -/
def repeated (k : Nat) (costs : List TrialCost) : List TrialCost :=
  (List.replicate k costs).flatten

theorem pooled_repeated (count : TrialCost → Nat) (k : Nat) (costs : List TrialCost) :
    pooled count (repeated k costs) = k * pooled count costs := by
  induction k with
  | zero => rw [Nat.zero_mul]; rfl
  | succ k ih =>
      have hfirst : repeated (k + 1) costs = costs ++ repeated k costs := rfl
      rw [hfirst, pooled_append, ih, Nat.succ_mul, Nat.add_comm]

/-- The pooled time of a step in milliseconds; none where there are no
steps. -/
def pooledPerStep (time : TrialCost → Nat) (costs : List TrialCost) : Rat :=
  if pooled TrialCost.steps costs = 0 then 0
  else (pooled time costs / 1000000) / pooled TrialCost.steps costs

theorem pooledPerStep_perm (time : TrialCost → Nat) {costs costs' : List TrialCost}
    (h : costs.Perm costs') : pooledPerStep time costs = pooledPerStep time costs' := by
  unfold pooledPerStep
  rw [pooled_perm time h, pooled_perm TrialCost.steps h]

/-- **Repeating a series changes no time per step**: both sums grow by the
same factor. -/
theorem pooledPerStep_repeated (time : TrialCost → Nat) {k : Nat} (hk : 1 ≤ k)
    (costs : List TrialCost) :
    pooledPerStep time (repeated k costs) = pooledPerStep time costs := by
  have hk' : (k : Rat) ≠ 0 := Nat.cast_ne_zero.2 (by omega)
  unfold pooledPerStep
  rw [pooled_repeated, pooled_repeated]
  by_cases hsteps : pooled TrialCost.steps costs = 0
  · rw [if_pos hsteps, hsteps, Nat.mul_zero, if_pos rfl]
  · rw [if_neg hsteps, if_neg (Nat.mul_ne_zero (by omega) hsteps), Nat.cast_mul, Nat.cast_mul,
      mul_div_assoc, mul_div_mul_left _ _ hk']

/-! ## §2. Summaries. -/

/-- A time in milliseconds is a millionth of its nanoseconds: the whole
seconds and the rest make up the time again. -/
theorem milliseconds_rat (time : Nat) : (milliseconds time : Rat) = time / 1000000 := by
  have hsplit : (time : Rat) = 1000000000 * (time / 1000000000 : Nat) + (time % 1000000000 : Nat) := by
    exact_mod_cast (Nat.div_add_mod time 1000000000).symm
  have hunfold : (milliseconds time : Rat)
      = (((time / 1000000000 : Nat) : Rat) + ((time % 1000000000 : Nat) : Rat) / 1000000000) * 1000 := by
    unfold milliseconds seconds
    norm_num [ReportScalar.ofNat]
  rw [hunfold, hsplit]
  ring

namespace Summary

/-- The sums over a series, in counters without bounds. -/
def ofSeries (costs : List TrialCost) : Summary Rat := costs.foldl add zero

/-- The milliseconds of one more trial. -/
theorem add_milliseconds_pooled (time : TrialCost → Nat) (c : TrialCost) (costs : List TrialCost)
    (sum : Rat) :
    sum + milliseconds (time c) + (pooled time costs : Rat) / 1000000
      = sum + (pooled time (c :: costs) : Rat) / 1000000 := by
  rw [milliseconds_rat, pooled_cons, Nat.cast_add]
  ring

/-- A series adds its sums to those before it. -/
theorem foldl_add_rat (costs : List TrialCost) (s : Summary Rat) :
    costs.foldl add s =
      { totalMs := s.totalMs + (pooled (·.elapsed) costs : Rat) / 1000000
        selectMs := s.selectMs + (pooled (·.timers.select) costs : Rat) / 1000000
        updateMs := s.updateMs + (pooled (·.timers.update) costs : Rat) / 1000000
        compactMs := s.compactMs + (pooled (·.timers.compact) costs : Rat) / 1000000
        totalSteps := s.totalSteps + pooled TrialCost.steps costs
        invocations := s.invocations + pooled (·.invocations) costs
        trials := s.trials + costs.length } := by
  induction costs generalizing s with
  | nil => simp [pooled]
  | cons c costs ih =>
      rw [List.foldl_cons, ih, mk.injEq]
      refine ⟨add_milliseconds_pooled (·.elapsed) c costs _,
        add_milliseconds_pooled (·.timers.select) c costs _,
        add_milliseconds_pooled (·.timers.update) c costs _,
        add_milliseconds_pooled (·.timers.compact) c costs _, ?_, ?_, ?_⟩
      · rw [pooled_cons, ← Nat.add_assoc]
        rfl
      · rw [pooled_cons, ← Nat.add_assoc]
        rfl
      · rw [List.length_cons, Nat.add_comm costs.length, ← Nat.add_assoc]
        rfl

/-- **The sums of a series**, each in its unit. -/
theorem ofSeries_rat (costs : List TrialCost) :
    ofSeries costs =
      { totalMs := pooled (·.elapsed) costs / 1000000
        selectMs := pooled (·.timers.select) costs / 1000000
        updateMs := pooled (·.timers.update) costs / 1000000
        compactMs := pooled (·.timers.compact) costs / 1000000
        totalSteps := pooled TrialCost.steps costs
        invocations := pooled (·.invocations) costs
        trials := costs.length } := by
  unfold ofSeries
  rw [foldl_add_rat]
  simp [zero]

/-- **There is a summary exactly as long as its counters are words.** -/
theorem ofTrials_eq (costs : List TrialCost) :
    (ofTrials costs : Option (Summary Rat)) =
      if pooled TrialCost.steps costs < UInt64.size ∧ pooled (·.invocations) costs < UInt64.size
        ∧ costs.length < UInt64.size then some (ofSeries costs) else none := by
  have hfits : (ofSeries costs).fits
      = decide (pooled TrialCost.steps costs < UInt64.size
        ∧ pooled (·.invocations) costs < UInt64.size ∧ costs.length < UInt64.size) := by
    rw [ofSeries_rat]
    rfl
  show (if (ofSeries costs).fits then some (ofSeries costs) else none) = _
  rw [hfits]
  simp only [decide_eq_true_eq]

end Summary

/-! ## §3. Verdicts. -/

/-- A section takes longer than it may: its baseline takes any time at all,
and the current time per step exceeds it by more than is allowed. -/
def Regresses (allowed : Rat) (ys xs : List TrialCost) (time : TrialCost → Nat) : Prop :=
  0 < pooledPerStep time ys ∧ (1 + allowed) * pooledPerStep time ys < pooledPerStep time xs

instance (allowed : Rat) (ys xs : List TrialCost) (time : TrialCost → Nat) :
    Decidable (Regresses allowed ys xs time) :=
  inferInstanceAs (Decidable (_ ∧ _))

theorem Regresses.mono {allowed allowed' : Rat} (h : allowed ≤ allowed') {ys xs : List TrialCost}
    {time : TrialCost → Nat} (hreg : Regresses allowed' ys xs time) :
    Regresses allowed ys xs time := by
  obtain ⟨hpos, hlt⟩ := hreg
  have hle : (1 + allowed) * pooledPerStep time ys ≤ (1 + allowed') * pooledPerStep time ys :=
    mul_le_mul_of_nonneg_right (by linarith) hpos.le
  exact ⟨hpos, hle.trans_lt hlt⟩

/-- No series is slower than itself. -/
theorem not_regresses_self {allowed : Rat} (h : 0 ≤ allowed) (xs : List TrialCost)
    (time : TrialCost → Nat) : ¬ Regresses allowed xs xs time := by
  intro hreg
  obtain ⟨hpos, hlt⟩ := hreg
  have hmul : 0 ≤ allowed * pooledPerStep time xs := mul_nonneg h hpos.le
  linarith

namespace Regression

/-- What is reported of a section: how many times the baseline its time per
step is, and both times. -/
def ofPooled (ys xs : List TrialCost) (part : String × (TrialCost → Nat)) : Regression Rat where
  name := part.1
  ratio := pooledPerStep part.2 xs / pooledPerStep part.2 ys
  baseline := pooledPerStep part.2 ys
  current := pooledPerStep part.2 xs

/-- **The check of a section**, with its quotient multiplied out. -/
theorem check_pooled (allowed : Rat) (ys xs : List TrialCost)
    (part : String × (TrialCost → Nat)) :
    check allowed part.1 (pooledPerStep part.2 ys) (pooledPerStep part.2 xs)
      = if Regresses allowed ys xs part.2 then some (ofPooled ys xs part) else none := by
  unfold check
  by_cases hpos : 0 < pooledPerStep part.2 ys
  · have hratio : Regresses allowed ys xs part.2
        ↔ 1 + allowed < pooledPerStep part.2 xs / pooledPerStep part.2 ys := by
      unfold Regresses
      rw [lt_div_iff₀ hpos, and_iff_right hpos]
    rw [if_neg (not_le.2 hpos)]
    exact if_congr hratio.symm rfl rfl
  · rw [if_pos (not_lt.1 hpos), if_neg fun h : Regresses allowed ys xs part.2 => hpos h.1]

end Regression

namespace Summary

/-- **What is reported of two series**: the compared sections that regress,
in order. -/
theorem regressions_ofSeries (ys xs : List TrialCost) (allowed : Rat) :
    regressions (ofSeries ys) (ofSeries xs) allowed
      = (TrialCost.compared.filter fun part => decide (Regresses allowed ys xs part.2)).map
          (Regression.ofPooled ys xs) := by
  have hchecks : regressions (ofSeries ys) (ofSeries xs) allowed
      = TrialCost.compared.filterMap fun part =>
          Regression.check allowed part.1 (pooledPerStep part.2 ys) (pooledPerStep part.2 xs) := by
    rw [ofSeries_rat, ofSeries_rat]
    rfl
  rw [hchecks]
  simp only [Regression.check_pooled]
  -- nothing is asked of the compared sections but their order
  induction TrialCost.compared with
  | nil => rfl
  | cons part parts ih =>
      by_cases hreg : Regresses allowed ys xs part.2
      · simp [hreg, ih]
      · simp [hreg, ih]

/-- Series with the same pooled times per step have the same reports. -/
theorem regressions_congr {ys ys' xs xs' : List TrialCost} {allowed : Rat}
    (hys : ∀ time, pooledPerStep time ys' = pooledPerStep time ys)
    (hxs : ∀ time, pooledPerStep time xs' = pooledPerStep time xs) :
    regressions (ofSeries ys') (ofSeries xs') allowed
      = regressions (ofSeries ys) (ofSeries xs) allowed := by
  have hreports : Regression.ofPooled ys' xs' = Regression.ofPooled ys xs := by
    funext part
    unfold Regression.ofPooled
    rw [hys, hxs]
  have hregresses : ∀ time, Regresses allowed ys' xs' time ↔ Regresses allowed ys xs time := by
    intro time
    unfold Regresses
    rw [hys, hxs]
  rw [regressions_ofSeries, regressions_ofSeries, hreports]
  congr 1
  exact List.filter_congr fun part _ => decide_eq_decide.2 (hregresses part.2)

/-- **A COMPARISON DEPENDS ON THE POOLED TIMES PER STEP ONLY.**  In exact
arithmetic:

  * a series has a summary, the sums over its trials, exactly as long as
    the counters are words;
  * of two series just those of the compared sections are reported, in
    order, whose baseline took any time per step and whose current time per
    step exceeds it by more than is allowed;
  * so the order of the trials does not matter, nor how often a series is
    repeated; a series compared with itself has nothing to report; and
    allowing more never adds a report.

The text of a report is made from the regression alone. -/
theorem regressions_pooled :
    (∀ costs : List TrialCost, (ofTrials costs : Option (Summary Rat)) =
      if pooled TrialCost.steps costs < UInt64.size ∧ pooled (·.invocations) costs < UInt64.size
        ∧ costs.length < UInt64.size then some (ofSeries costs) else none)
    ∧ ∀ ys xs : List TrialCost,
      (∀ allowed, regressions (ofSeries ys) (ofSeries xs) allowed
        = (TrialCost.compared.filter fun part => decide (Regresses allowed ys xs part.2)).map
            (Regression.ofPooled ys xs))
      ∧ (∀ ys' xs' allowed, ys.Perm ys' → xs.Perm xs' →
        regressions (ofSeries ys') (ofSeries xs') allowed
          = regressions (ofSeries ys) (ofSeries xs) allowed)
      ∧ (∀ k m allowed, 1 ≤ k → 1 ≤ m →
        regressions (ofSeries (repeated k ys)) (ofSeries (repeated m xs)) allowed
          = regressions (ofSeries ys) (ofSeries xs) allowed)
      ∧ (∀ allowed : Rat, 0 ≤ allowed → regressions (ofSeries xs) (ofSeries xs) allowed = [])
      ∧ (∀ allowed allowed', allowed ≤ allowed' →
        (regressions (ofSeries ys) (ofSeries xs) allowed').Sublist
          (regressions (ofSeries ys) (ofSeries xs) allowed)) := by
  refine ⟨ofTrials_eq, fun ys xs => ⟨regressions_ofSeries ys xs, ?_, ?_, ?_, ?_⟩⟩
  · intro ys' xs' allowed hys hxs
    apply regressions_congr
    · exact fun time => (pooledPerStep_perm time hys).symm
    · exact fun time => (pooledPerStep_perm time hxs).symm
  · intro k m allowed hk hm
    apply regressions_congr
    · exact fun time => pooledPerStep_repeated time hk ys
    · exact fun time => pooledPerStep_repeated time hm xs
  · intro allowed hallowed
    rw [regressions_ofSeries, List.map_eq_nil_iff, List.filter_eq_nil_iff]
    intro part _ hreg
    exact not_regresses_self hallowed xs part.2 (of_decide_eq_true hreg)
  · intro allowed allowed' hle
    rw [regressions_ofSeries, regressions_ofSeries]
    apply List.Sublist.map
    apply List.monotone_filter_right
    intro part hreg
    exact decide_eq_true ((of_decide_eq_true hreg).mono hle)

end Summary

/-! ## §4. An example. -/

/-- A baseline of two trials with two steps each: a millisecond per step,
half of it in selection and nothing in updates. -/
def TrialCost.baselineTrials : List TrialCost :=
  [⟨1, 1, 2, 1000000, ⟨1500000, 0, 0, 0, 0⟩⟩, ⟨0, 2, 1, 3000000, ⟨500000, 0, 0, 0, 0⟩⟩]

/-- A single step of three milliseconds. -/
def TrialCost.slowTrial : List TrialCost := [⟨0, 1, 1, 3000000, ⟨500000, 1000000, 0, 0, 0⟩⟩]

/-- The step takes three times as long as the steps of the baseline, in
whatever order and however often these are run; the updates do not count,
for their baseline took no time. -/
theorem Summary.regressions_pooled_slowTrial :
    regressions (ofSeries TrialCost.baselineTrials.reverse) (ofSeries TrialCost.slowTrial) (1 / 4)
        = [⟨"total_time", 3, 1, 3⟩]
      ∧ regressions (ofSeries (repeated 3 TrialCost.baselineTrials))
          (ofSeries (repeated 2 TrialCost.slowTrial)) (1 / 4) = [⟨"total_time", 3, 1, 3⟩]
      ∧ regressions (ofSeries TrialCost.slowTrial) (ofSeries TrialCost.slowTrial) (1 / 4 : Rat) = []
      ∧ (regressions (ofSeries TrialCost.baselineTrials) (ofSeries TrialCost.slowTrial) 2).Sublist
          [⟨"total_time", 3, 1, 3⟩] := by
  obtain ⟨-, hall⟩ := regressions_pooled
  obtain ⟨hexact, hperm, hrepeat, hself, hmono⟩ :=
    hall TrialCost.baselineTrials TrialCost.slowTrial
  have hreport : regressions (ofSeries TrialCost.baselineTrials) (ofSeries TrialCost.slowTrial)
      (1 / 4) = [⟨"total_time", 3, 1, 3⟩] := by
    rw [hexact]
    decide +kernel
  refine ⟨?_, ?_, hself (1 / 4) (by norm_num), ?_⟩
  · rw [hperm _ _ (1 / 4) (List.reverse_perm _).symm (List.Perm.refl _), hreport]
  · rw [hrepeat 3 2 (1 / 4) (by decide) (by decide), hreport]
  · rw [← hreport]
    exact hmono (1 / 4) 2 (by norm_num)

end DenseSimplex
