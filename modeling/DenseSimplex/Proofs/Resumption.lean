/-
  DenseSimplex.Proofs.Resumption
  ──────────────────────────────
  **INTERRUPTING AND RESUMING DOES NOT CHANGE THE COMPUTATION.**

  An invocation is interrupted when its step budget is spent or when the
  basis becomes feasible, and it may be taken up again by another one: of
  the same loop, of a new loop, or of `pivot` with the caller's source.  A
  `Series` is what comes of that, call after call, until a call ends for
  good.  All that the calls share is the dictionary and the source, so each
  follows a piece of one path:

      call        d  ──pivots──▸  d₁    interrupted here, nothing is drawn
      call                        d₁  ──pivots──▸  d₂    …
      last call                                   dₙ  ──pivots──▸  d'

  and an invocation that nothing interrupts follows the whole of it
  (`Series.path`, `Loop.run_of_path`).
-/
import DenseSimplex.Proofs.LinearSystem
import DenseSimplex.Proofs.Invocations

namespace DenseSimplex

variable {ω τ γ : Type} [Scalar τ] [Element ω τ] [Source γ]

/-! ## §1. Settings that differ in when to stop. -/

/-- Settings that are those of a base, except for the budget, which draws
nothing, and for what happens at a feasible basis. -/
structure Settings.Reschedules (s base : Settings ω) : Prop where
  same : s = { base with budget := s.budget, continueAfterFeasible := s.continueAfterFeasible }
  budget : s.budget = .unlimited ∨ ∃ limit, 1 ≤ limit ∧ s.budget = .fixed limit

/-- The settings with which nothing interrupts an invocation. -/
def Settings.uninterrupted (base : Settings ω) : Settings ω :=
  { base with budget := .unlimited, continueAfterFeasible := true }

theorem Settings.uninterrupted_reschedules (base : Settings ω) :
    base.uninterrupted.Reschedules base := ⟨rfl, .inl rfl⟩

theorem Settings.Reschedules.draw_eq {s base : Settings ω} (h : s.Reschedules base) (source : γ) :
    ∃ limit, s.budget.draw source = .ok (limit, source) := by
  obtain hbudget | ⟨limit, -, hbudget⟩ := h.budget
  · exact ⟨none, Budget.draw_of_unlimited hbudget source⟩
  · exact ⟨some limit, Budget.draw_of_fixed hbudget source⟩

namespace Dictionary

variable {s base : Settings ω} {d d' : Dictionary τ} {source source' : γ}

/-- A step does not ask when to stop. -/
theorem steps_iff (h : s.Reschedules base) {r : StepResult τ} :
    d.Steps s source r d' source' ↔ d.Steps base source r d' source' := by
  rw [h.same]
  constructor
  · intro hsteps
    cases hsteps with
    | optimal hsel => exact .optimal hsel
    | unbounded hsel => exact .unbounded hsel
    | pivoted hsel hmake => exact .pivoted hsel ⟨hmake.relabelled, hmake.make_eq⟩
  · intro hsteps
    cases hsteps with
    | optimal hsel => exact .optimal hsel
    | unbounded hsel => exact .unbounded hsel
    | pivoted hsel hmake => exact .pivoted hsel ⟨hmake.relabelled, hmake.make_eq⟩

theorem path_iff (h : s.Reschedules base) {cs : List (Choice τ)} :
    d.Path s source cs d' source' ↔ d.Path base source cs d' source' := by
  constructor
  · intro hpath
    induction hpath with
    | nil => exact .nil
    | cons hsteps _ ih => exact .cons ((steps_iff h).1 hsteps) ih
  · intro hpath
    induction hpath with
    | nil => exact .nil
    | cons hsteps _ ih => exact .cons ((steps_iff h).2 hsteps) ih

end Dictionary

theorem Status.ends_iff {s base : Settings ω} (h : s.Reschedules base) {d d' : Dictionary τ}
    {source source' : γ} {status : Status} :
    status.Ends s d source d' source' ↔ status.Ends base d source d' source' := by
  unfold Ends
  cases status <;> simp only [Dictionary.steps_iff h]

/-! ## §2. Series of invocations. -/

/-- **One invocation with some settings**, on a dictionary and with a
source: of a loop that holds the source, or of `pivot`.  It leaves a source
to go on with. -/
inductive Call (s : Settings ω) (d : Dictionary τ) (source : γ) : Ran ω τ γ → γ → Prop where
  | run (loop : Loop ω γ) (hs : loop.settings = s) (hsource : loop.source = source)
      (clock : Nat → Bool) : Call s d source (loop.run clock d) (loop.run clock d).loop.source
  | pivot [Scalar ω] (tracing : Tracing) (clock : Nat → Bool) {ran : Ran ω τ γ}
      (h : pivot s tracing clock d source = .ok ran) : Call s d source ran (ran.nextSource source)

/-- A call is an invocation of a loop, also where it was made by
`pivot`. -/
theorem Call.exists_loop {s : Settings ω} {d : Dictionary τ} {source after : γ}
    {ran : Ran ω τ γ} (h : Call s d source ran after) :
    ∃ loop : Loop ω γ, loop.settings = s ∧ loop.source = source
      ∧ (∃ clock, ran = loop.run clock d)
      ∧ ∀ o, ran.result = .ok o → after = ran.loop.source := by
  cases h with
  | run loop hs hsource clock => exact ⟨loop, hs, hsource, ⟨clock, rfl⟩, fun _ _ => rfl⟩
  | pivot tracing clock h =>
      unfold DenseSimplex.pivot Loop.create at h
      split at h
      · cases h
        refine ⟨_, rfl, rfl, ⟨clock, rfl⟩, fun o ho => ?_⟩
        unfold Ran.nextSource
        rw [ho]
      · cases h

/-- A call with an outcome follows a path, and leaves the source behind
it. -/
theorem Call.path {s base : Settings ω} (hs : s.Reschedules base) {d : Dictionary τ}
    {source after : γ} {ran : Ran ω τ γ} (h : Call s d source ran after) {o : Outcome ω}
    (hr : ran.result = .ok o) :
    ∃ d₁ source₁, d.Path base source ran.journal.pivots d₁ source₁
      ∧ o.steps = ran.journal.pivots.length
      ∧ o.status.Ends base d₁ source₁ ran.dictionary after := by
  obtain ⟨loop, rfl, rfl, ⟨clock, rfl⟩, hafter⟩ := h.exists_loop
  obtain ⟨limit, source, d₁, source₁, hdraw, hpath, hsteps, hends⟩ := loop.run_path clock hr
  -- the budget drew nothing
  obtain ⟨limit', hdraw'⟩ := hs.draw_eq loop.source
  obtain rfl : source = loop.source :=
    congrArg Prod.snd (Except.ok.inj (hdraw.symm.trans hdraw'))
  rw [hafter o hr]
  exact ⟨d₁, source₁, (Dictionary.path_iff hs).1 hpath, hsteps, (Status.ends_iff hs).1 hends⟩

/-- What invocations amount to: all their pivots, the number of their
steps, the last status, and the dictionary and the source that are left. -/
structure Upshot (τ γ : Type) where
  pivots : List (Choice τ)
  steps : Nat
  status : Status
  dictionary : Dictionary τ
  source : γ

/-- **Invocations one after another**, each on the dictionary and with the
source that the one before it left.  Their settings differ in when to stop
only; an invocation that can be resumed is followed by another one, and the
last one cannot. -/
inductive Series (base : Settings ω) : Dictionary τ → γ → Upshot τ γ → Prop where
  | last {d : Dictionary τ} {source after : γ} {s : Settings ω} (hs : s.Reschedules base)
      {ran : Ran ω τ γ} (h : Call s d source ran after) {o : Outcome ω}
      (hr : ran.result = .ok o) (hlast : o.status.isResumable = false) :
      Series base d source ⟨ran.journal.pivots, o.steps, o.status, ran.dictionary, after⟩
  | resume {d : Dictionary τ} {source after : γ} {s : Settings ω} (hs : s.Reschedules base)
      {ran : Ran ω τ γ} (h : Call s d source ran after) {o : Outcome ω}
      (hr : ran.result = .ok o) (hmore : o.status.isResumable = true) {rest : Upshot τ γ}
      (hrest : Series base ran.dictionary after rest) :
      Series base d source
        { rest with pivots := ran.journal.pivots ++ rest.pivots, steps := o.steps + rest.steps }

/-- **A series follows one path**, and ends behind it for good. -/
theorem Series.path {base : Settings ω} {d : Dictionary τ} {source : γ} {u : Upshot τ γ}
    (h : Series base d source u) :
    ∃ d₁ source₁, d.Path base source u.pivots d₁ source₁ ∧ u.steps = u.pivots.length
      ∧ u.status.Ends base d₁ source₁ u.dictionary u.source
      ∧ u.status.isResumable = false := by
  induction h with
  | last hs hcall hr hlast =>
      obtain ⟨d₁, source₁, hpath, hsteps, hends⟩ := hcall.path hs hr
      exact ⟨d₁, source₁, hpath, hsteps, hends, hlast⟩
  | @resume d source after s hs ran hcall o hr hmore rest _ ih =>
      obtain ⟨d₁, source₁, hpath, hsteps, hends⟩ := hcall.path hs hr
      -- an invocation that can be resumed ends where its path ends
      have hhere : ran.dictionary = d₁ ∧ after = source₁ := by
        cases hstatus : o.status with
        | optimal => rw [hstatus] at hmore; cases hmore
        | unbounded => rw [hstatus] at hmore; cases hmore
        | feasible => rw [hstatus] at hends; exact hends
        | budgetExhausted => rw [hstatus] at hends; exact hends
      obtain ⟨rfl, rfl⟩ := hhere
      obtain ⟨d₂, source₂, hpath', hsteps', hends', hlast⟩ := ih
      refine ⟨d₂, source₂, hpath.trans hpath', ?_, hends', hlast⟩
      show o.steps + rest.steps = (ran.journal.pivots ++ rest.pivots).length
      rw [hsteps, hsteps', List.length_append]

/-- What a single invocation with an outcome amounts to. -/
def Ran.upshot (ran : Ran ω τ γ) (o : Outcome ω) : Upshot τ γ :=
  ⟨ran.journal.pivots, o.steps, o.status, ran.dictionary, ran.loop.source⟩

/-- **INTERRUPTING AND RESUMING NEVER CHANGES THE COMPUTATION.**  For any
settings, any arithmetic and any source of coins: whatever a series of
invocations amounts to, a single invocation that nothing interrupts amounts
to the same, as far as its counters have room.  And an invocation that
begins without artificial variables and with a fixed budget makes no more
pivots than that, and says that the budget is spent exactly if it made as
many. -/
theorem Series.uninterrupted_and_limited (base : Settings ω) :
    (∀ (d : Dictionary τ) (source : γ) (u : Upshot τ γ), Series base d source u →
      ∀ (loop : Loop ω γ) (clock : Nat → Bool), loop.settings = base.uninterrupted →
        loop.source = source → loop.totalSteps + u.steps < UInt64.size →
        loop.invocations + 1 < UInt64.size →
        ∃ o, (loop.run clock d).result = .ok o ∧ (loop.run clock d).upshot o = u)
    ∧ ∀ (s : Settings ω) (limit : Nat), s.budget = .fixed limit → 1 ≤ limit →
      ∀ (d : Dictionary τ) (source after : γ) (ran : Ran ω τ γ), Call s d source ran after →
        d.artificials = 0 → ran.journal.pivots.length ≤ limit
          ∧ ((∃ o, ran.result = .ok o ∧ o.status = .budgetExhausted) ↔
              ran.journal.pivots.length = limit) := by
  constructor
  · intro d source u h loop clock hs hsource hcounter hcount
    obtain ⟨d₁, source₁, hpath, hsteps, hends, hlast⟩ := h.path
    subst hsource
    have hsched := base.uninterrupted_reschedules
    rw [← Dictionary.path_iff hsched, ← hs] at hpath
    rw [← Status.ends_iff hsched, ← hs] at hends
    obtain ⟨o, hr, hstatus, hpivots, hcs, hdictionary, hafter⟩ :=
      loop.run_of_path clock (by rw [hs]; rfl) (by rw [hs]; rfl) hpath hends hlast
        (by rw [← hsteps]; exact hcounter) hcount
    refine ⟨o, hr, ?_⟩
    unfold Ran.upshot
    rw [hpivots, hcs, ← hsteps, hstatus, hdictionary, hafter]
  · intro s limit hbudget hlimit d source after ran hcall hzero
    obtain ⟨loop, rfl, -, ⟨clock, rfl⟩, -⟩ := hcall.exists_loop
    exact loop.run_limited clock hbudget hlimit hzero

/-- `x₁ + 3 x₂` on `x₁ + x₂ = 2`, whose artificial variable is in the
basis, with a slack `x₃ = 3 - x₁`. -/
def Dictionary.twoPivots : Dictionary Rat where
  tableau := ⟨⟨0, [2, 3]⟩, [⟨1, [-1, -1]⟩, ⟨3, [-1, 0]⟩], by decide⟩
  left := [-1, 3]
  right := [1, 2]
  artificials := 1

/-- A loop with a budget of one step. -/
def Loop.oneStep : Loop Rat (Nat → UInt64) :=
  { Loop.exact with settings := { Settings.exact with budget := .fixed 1 } }

namespace Series

/-- A call that stops at the feasible basis. -/
def firstCall : Ran Rat Rat (Nat → UInt64) :=
  Loop.oneStep.run (fun _ => false) Dictionary.twoPivots

/-- The same loop once more: it spends its budget just where the optimum is
reached. -/
def secondCall : Ran Rat Rat (Nat → UInt64) :=
  firstCall.loop.run (fun _ => false) firstCall.dictionary

/-- What is left for `pivot` is to find that it is the optimum. -/
def thirdCall : Ran Rat Rat (Nat → UInt64) :=
  { Loop.exact with source := secondCall.loop.source }.run (fun _ => false) secondCall.dictionary

/-- Three calls, interrupted at a feasible basis and at the optimum, come
to the same as a single one. -/
theorem uninterrupted_and_limited_twoPivots :
    (∃ o, ({ Loop.exact with settings := Settings.exact.uninterrupted }.run (fun _ => false)
          Dictionary.twoPivots).result = .ok o
        ∧ ({ Loop.exact with settings := Settings.exact.uninterrupted }.run (fun _ => false)
          Dictionary.twoPivots).upshot o
            = ⟨firstCall.journal.pivots ++ (secondCall.journal.pivots ++ []), 1 + (1 + 0),
                .optimal, thirdCall.dictionary, thirdCall.loop.source⟩)
      ∧ secondCall.journal.pivots.length = 1 := by
  have hfirst : firstCall.result = .ok ⟨.feasible, 1, 1, 0, 2⟩ := by cbv
  have hsecond : secondCall.result = .ok ⟨.budgetExhausted, 1, 1, 0, 6⟩ := by cbv
  have hthird : thirdCall.result = .ok ⟨.optimal, 0, 1, 0, 6⟩ := by cbv
  have hpivots : thirdCall.journal.pivots = [] := by cbv
  have hvalid : Settings.exact.validate = .ok () := by rfl
  have hpivot : pivot Settings.exact .off (fun _ => false) secondCall.dictionary
      secondCall.loop.source = .ok thirdCall := by
    unfold pivot Loop.create
    rw [hvalid]
    rfl
  -- the three calls, each where the one before it stopped
  have hreschedules : Loop.oneStep.settings.Reschedules Settings.exact :=
    ⟨rfl, .inr ⟨1, by decide, rfl⟩⟩
  have hcall : Call Loop.oneStep.settings Dictionary.twoPivots (fun _ => 0) firstCall
      firstCall.loop.source := .run Loop.oneStep rfl rfl _
  have hcall' : Call Loop.oneStep.settings firstCall.dictionary firstCall.loop.source secondCall
      secondCall.loop.source := .run firstCall.loop (by cbv) rfl _
  have hcall'' : Call Settings.exact secondCall.dictionary secondCall.loop.source thirdCall
      thirdCall.loop.source := by
    have hnext : thirdCall.nextSource secondCall.loop.source = thirdCall.loop.source := by
      unfold Ran.nextSource
      rw [hthird]
    rw [← hnext]
    exact .pivot .off (fun _ => false) hpivot
  have hseries : Series Settings.exact Dictionary.twoPivots (fun _ => 0)
      ⟨firstCall.journal.pivots ++ (secondCall.journal.pivots ++ []), 1 + (1 + 0), .optimal,
        thirdCall.dictionary, thirdCall.loop.source⟩ := by
    have hself : Settings.exact.Reschedules Settings.exact := ⟨rfl, .inl rfl⟩
    have hlast := Series.last hself hcall'' hthird rfl
    rw [hpivots] at hlast
    exact .resume hreschedules hcall hfirst rfl (.resume hreschedules hcall' hsecond rfl hlast)
  obtain ⟨hsingle, hlimited⟩ :=
    Series.uninterrupted_and_limited (τ := Rat) (γ := Nat → UInt64) Settings.exact
  refine ⟨hsingle _ _ _ hseries _ _ rfl rfl (by decide) (by decide), ?_⟩
  exact (hlimited _ 1 rfl (by decide) _ _ _ _ hcall' (by cbv)).2.1 ⟨_, hsecond, rfl⟩

end Series

end DenseSimplex
