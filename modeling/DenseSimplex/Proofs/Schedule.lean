/-
  DenseSimplex.Proofs.Schedule
  ────────────────────────────
  **THE ANSWER DOES NOT DEPEND ON THE SCHEDULE.**

  An execution invokes, and invokes again as long as the status says that
  this can make progress.  Budgets, coins, tie-breaks and rounding modes
  may be different from one invocation to the next, and two executions from
  one dictionary share no dictionary after it, and not even the last basis.
  What they share is the problem.  If no artificial variable is there to be
  eliminated, the last status decides what is true of the problem's values:

      optimal     the reported objective is the greatest of them;
      unbounded   there is no greatest one.

  So the problem decides the status, and the objective with it
  (`Execution.answer_unique`).
-/
import DenseSimplex.Proofs.Labels
import DenseSimplex.Proofs.Resumption
import DenseSimplex.Proofs.Verdict

namespace DenseSimplex

/-! ## §1. Executions. -/

/-- All thresholds that an answer depends on are zero.  Those that decide
between pivots are left open, and so is the rounding mode. -/
structure Settings.IsSharp (s : Settings Rat) : Prop where
  prec : s.prec = 0
  pivotTol : s.pivotTol = 0
  epsObjective : s.epsObjective = 0

theorem Settings.IsSharp.isExact {s : Settings Rat} (h : s.IsSharp) : s.IsExact :=
  ⟨h.prec, h.pivotTol, le_of_eq h.epsObjective.symm⟩

/-- **Invocations until there is an answer**: one that can be resumed is
followed by another one on the dictionary that it left, with settings and a
source of its own. -/
inductive Execution (P : Settings Rat → Prop) : Dictionary Rat → Outcome Rat → Prop where
  | last {γ : Type} [Source γ] {d : Dictionary Rat} {s : Settings Rat} (hs : P s)
      {source after : γ} {ran : Ran Rat Rat γ} (h : Call s d source ran after)
      {o : Outcome Rat} (hr : ran.result = .ok o) (hlast : o.status.isResumable = false) :
      Execution P d o
  | resume {γ : Type} [Source γ] {d : Dictionary Rat} {s : Settings Rat} (hs : P s)
      {source after : γ} {ran : Ran Rat Rat γ} (h : Call s d source ran after)
      {o : Outcome Rat} (hr : ran.result = .ok o) (hmore : o.status.isResumable = true)
      {answer : Outcome Rat} (hrest : Execution P ran.dictionary answer) : Execution P d answer

/-- **The answer of an execution is that of its last invocation**, which
comes after the history of those before it. -/
theorem Execution.exists_last {P : Settings Rat → Prop} {d₀ d : Dictionary Rat}
    {o : Outcome Rat} (h : Execution P d o) {ids : List Int} (hbefore : History P d₀ ids d) :
    ∃ (γ : Type) (_ : Source γ) (loop : Loop Rat γ) (clock : Nat → Bool) (ids' : List Int)
      (d' : Dictionary Rat), History P d₀ ids' d' ∧ P loop.settings
        ∧ (loop.run clock d').result = .ok o ∧ o.status.isResumable = false := by
  induction h generalizing ids with
  | @last γ inst d s hs source after ran hcall o hr hlast =>
      obtain ⟨loop, rfl, -, ⟨clock, rfl⟩, -⟩ := hcall.exists_loop
      exact ⟨γ, inst, loop, clock, ids, d, hbefore, hs, hr, hlast⟩
  | resume hs hcall hr _ _ ih =>
      obtain ⟨loop, rfl, -, ⟨clock, rfl⟩, -⟩ := hcall.exists_loop
      exact ih (.run hbefore loop hs clock hr)

/-! ## §2. What an answer says. -/

namespace Dictionary

/-- The objective values of a problem. -/
def values (d : Dictionary Rat) : Set Rat := {z | ∃ x, d.Admissible [] x z}

/-- **What an answer says of a set of values.** -/
inductive Answers (values : Set Rat) (o : Outcome Rat) : Prop where
  | optimal (h : o.status = .optimal) (hgreatest : IsGreatest values o.objective)
  | unbounded (h : o.status = .unbounded) (hall : ∀ bound, ∃ z ∈ values, bound < z)

/-- **A set of values has one answer.** -/
theorem Answers.unique {values : Set Rat} {o o' : Outcome Rat} (h : Answers values o)
    (h' : Answers values o') :
    o.status = o'.status ∧ (o.status = .optimal → o.objective = o'.objective) := by
  -- a greatest value leaves no room for values beyond every bound
  have hexcludes : ∀ {best : Rat}, IsGreatest values best →
      ¬ ∀ bound, ∃ z ∈ values, bound < z := by
    intro best hbest hall
    obtain ⟨z, hz, hlt⟩ := hall best
    exact absurd (hbest.2 hz) (not_le.2 hlt)
  cases h with
  | optimal hstatus hgreatest =>
      cases h' with
      | optimal hstatus' hgreatest' =>
          exact ⟨hstatus.trans hstatus'.symm, fun _ => hgreatest.unique hgreatest'⟩
      | unbounded _ hall => exact absurd hall (hexcludes hgreatest)
  | unbounded hstatus hall =>
      cases h' with
      | optimal _ hgreatest' => exact absurd hall (hexcludes hgreatest')
      | unbounded hstatus' _ =>
          refine ⟨hstatus.trans hstatus'.symm, fun hoptimal => ?_⟩
          rw [hstatus] at hoptimal
          cases hoptimal

end Dictionary

/-- **An execution answers the problem that it began with**, if there are
no artificial variables. -/
theorem Execution.answers {d : Dictionary Rat} (hd : d.validate = .ok ()) (hf : d.Feasible)
    (hzero : d.artificials = 0) {o : Outcome Rat} (h : Execution Settings.IsSharp d o) :
    Dictionary.Answers d.values o := by
  obtain ⟨γ, inst, loop, clock, ids, d', hbefore, hs, hr, hlast⟩ := h.exists_last .start
  have hhistory : History Settings.IsExact d ids d' := hbefore.mono fun _ hs => hs.isExact
  have hwf : d.WellFormed := Dictionary.validate_rat_iff.1 hd
  -- nothing is there to be eliminated
  have hreach := (hhistory.run_spec ⟨hwf, hf⟩ loop hs.isExact clock hr).1
  have hcount := hreach.artificials_add_length hwf
  have hnone : ids ++ (loop.run clock d').journal.eliminations = [] :=
    List.length_eq_zero_iff.1 (by omega)
  obtain ⟨hoptimal, hunbounded⟩ := History.verdicts_hold hd hf hhistory loop hs.isExact clock hr
  rw [hnone] at hoptimal hunbounded
  rw [hs.epsObjective] at hoptimal
  cases hstatus : o.status with
  | feasible =>
      rw [hstatus] at hlast
      cases hlast
  | budgetExhausted =>
      rw [hstatus] at hlast
      cases hlast
  | optimal =>
      obtain ⟨hbasic, hbest⟩ := hoptimal hstatus
      refine .optimal hstatus ⟨⟨_, hbasic⟩, ?_⟩
      rintro z ⟨x, hx⟩
      have hle := hbest x z hx
      rwa [zero_mul, add_zero] at hle
  | unbounded =>
      refine .unbounded hstatus fun bound => ?_
      obtain ⟨x, z, hx, hz⟩ := hunbounded hstatus bound
      exact ⟨z, ⟨x, hx⟩, hz⟩

/-- **THE ANSWER DOES NOT DEPEND ON THE SCHEDULE.**  Any two executions
from a valid dictionary without artificial variables and without negative
right-hand sides, in exact arithmetic, end with the same status, and if it
is `optimal`, with the same objective. -/
theorem Execution.answer_unique {d : Dictionary Rat} (hd : d.validate = .ok ())
    (hf : d.Feasible) (hzero : d.artificials = 0) {o o' : Outcome Rat}
    (h : Execution Settings.IsSharp d o) (h' : Execution Settings.IsSharp d o') :
    o.status = o'.status ∧ (o.status = .optimal → o.objective = o'.objective) :=
  (h.answers hd hf hzero).unique (h'.answers hd hf hzero)

/-- The rows `x₃ = 2 - x₁ - x₂` and `x₄ = 1 - x₁` with objective
`x₁ + x₂`. -/
def Dictionary.wedge : Dictionary Rat where
  tableau := ⟨⟨0, [2, 1]⟩, [⟨1, [-1, -1]⟩, ⟨1, [-1, 0]⟩], by decide⟩
  left := [3, 4]
  right := [1, 2]
  artificials := 0

/-- A loop that takes short steps for degenerate ones and draws a budget of
one step each time. -/
def Loop.hesitant : Loop Rat (Nat → UInt64) :=
  { Loop.exact with
    settings :=
      { Settings.exact with degenerateTol := 1, fused := false, budget := .random 1 1 } }

namespace Execution

/-- The hesitant loop takes the first column, in which steps are short. -/
def shortStep : Ran Rat Rat (Nat → UInt64) := Loop.hesitant.run (fun _ => false) Dictionary.wedge

/-- The same loop once more. -/
def longStep : Ran Rat Rat (Nat → UInt64) :=
  shortStep.loop.run (fun _ => false) shortStep.dictionary

/-- What is left is to find that this is the optimum. -/
def noStep : Ran Rat Rat (Nat → UInt64) :=
  longStep.loop.run (fun _ => false) longStep.dictionary

/-- One pivot or two, on different columns and to different bases, come to
the same answer. -/
theorem answer_unique_wedge :
    ((Loop.exact.run (fun _ => false) Dictionary.wedge).dictionary.left = [2, 4]
        ∧ noStep.dictionary.left = [2, 1])
      ∧ ∃ o o', (Loop.exact.run (fun _ => false) Dictionary.wedge).result = .ok o
        ∧ noStep.result = .ok o' ∧ o.status = o'.status
        ∧ (o.status = .optimal → o.objective = o'.objective) := by
  have hf : Dictionary.wedge.Feasible := by
    show ∀ v ∈ [(2 : Rat), 1], 0 ≤ v
    norm_num
  have hsharp : Loop.exact.settings.IsSharp := ⟨rfl, rfl, rfl⟩
  have hsharp' : Loop.hesitant.settings.IsSharp := ⟨rfl, rfl, rfl⟩
  have hrun : (Loop.exact.run (fun _ => false) Dictionary.wedge).result
      = .ok ⟨.optimal, 1, 2, 0, 2⟩ := by cbv
  have hshort : shortStep.result = .ok ⟨.budgetExhausted, 1, 2, 0, 1⟩ := by cbv
  have hlong : longStep.result = .ok ⟨.budgetExhausted, 1, 2, 0, 2⟩ := by cbv
  have hno : noStep.result = .ok ⟨.optimal, 0, 2, 0, 2⟩ := by cbv
  have hsingle : Execution Settings.IsSharp Dictionary.wedge ⟨.optimal, 1, 2, 0, 2⟩ :=
    .last hsharp (.run Loop.exact rfl rfl _) hrun rfl
  have hthree : Execution Settings.IsSharp Dictionary.wedge ⟨.optimal, 0, 2, 0, 2⟩ := by
    have hcall : Call Loop.hesitant.settings Dictionary.wedge (fun _ => 0) shortStep _ :=
      .run Loop.hesitant rfl rfl _
    have hcall' : Call Loop.hesitant.settings shortStep.dictionary shortStep.loop.source
        longStep _ := .run shortStep.loop (by cbv) rfl _
    have hcall'' : Call Loop.hesitant.settings longStep.dictionary longStep.loop.source
        noStep _ := .run longStep.loop (by cbv) rfl _
    exact .resume hsharp' hcall hshort rfl
      (.resume hsharp' hcall' hlong rfl (.last hsharp' hcall'' hno rfl))
  refine ⟨⟨by cbv, by cbv⟩, _, _, hrun, hno, ?_⟩
  exact Execution.answer_unique (by rfl) hf rfl hsingle hthree

end Execution

end DenseSimplex
