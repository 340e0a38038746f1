/-
  DenseSimplex.Proofs.Statuses
  ────────────────────────────
  **WHAT AN OUTCOME SAYS IS TRUE.**

  An invocation is left in one of four ways, at different points of a pass:

      before the step   budgetExhausted
      at the step       optimal, unbounded
      after the pivot   feasible

  What each of them says of the dictionary that is left, and of the pivots
  that were made, is collected in `Outcome.Truthful`.  The two that compete
  are `feasible` and `budgetExhausted`: both need a basis without
  artificial variables, and which of them is reported is decided by whether
  the last pivot was the one that eliminated the last of them
  (`Dictionary.Clears`).

      pass           Exits, one case per exit
        ↓  Exits.tells, Ended.Tells.onward
      passes         Ended.Tells
        ↓  Loop.run_truthful
      invocations    Outcome.Truthful

  The number of artificial variables never grows, even where a call stops
  at a fault; so of any number of calls at most one reports `feasible`
  (`Calls.count_feasible_le`).
-/
import DenseSimplex.Proofs.PhaseOne
import DenseSimplex.Proofs.Resumption

namespace DenseSimplex

variable {ω τ γ : Type}

/-! ## §1. The number of artificial variables never grows. -/

/-- A pivot at which an invocation may stop eliminates the last artificial
variable. -/
theorem Invocation.becameFeasible_iff {d : Dictionary τ} {eliminated : Option Int} :
    becameFeasible d eliminated = true ↔ (∃ id, eliminated = some id) ∧ d.artificials = 0 := by
  simp [becameFeasible, Option.isSome_iff_exists]

/-- A limit that is spent was set, and as many steps were made. -/
theorem Invocation.limit_of_spentLimit {terms : Terms ω} {i : Invocation ω τ γ} {limit : Nat}
    (h : spentLimit terms i = some limit) : terms.limit = some limit ∧ limit ≤ i.steps := by
  unfold spentLimit at h
  split at h
  next l _ hl =>
    split at h
    next hle =>
      cases h
      exact ⟨hl, hle⟩
    next => cases h
  next => cases h

variable [Scalar τ] [Element ω τ]

theorem Walk.artificials_make_le (s : Settings ω) (w : Walk τ γ) (c : Choice τ) :
    (w.make s c).walk.dictionary.artificials ≤ w.dictionary.artificials := by
  unfold make settle
  split
  · exact Nat.le_refl _
  · dsimp only
    split
    · exact Nat.le_refl _
    · split
      · exact Nat.le_refl _
      next after eliminated hlabels =>
        have hcount := Dictionary.relabelled_artificials hlabels
        have hle : after.artificials ≤ w.dictionary.artificials := by
          dsimp only at hcount
          omega
        split
        · exact hle
        · split
          · exact hle
          · exact hle

variable [Source γ]

theorem Walk.artificials_step_le (s : Settings ω) (w : Walk τ γ) :
    (w.step s).walk.dictionary.artificials ≤ w.dictionary.artificials := by
  unfold step
  split
  · exact Nat.le_refl _
  · exact Nat.le_refl _
  · exact artificials_make_le _ _ _

namespace Invocation

theorem artificials_pass_le (terms : Terms ω) (i : Invocation ω τ γ) :
    (pass terms i).invocation.walk.dictionary.artificials ≤ i.walk.dictionary.artificials := by
  cases hlimit : spentLimit terms i with
  | some limit =>
      unfold pass
      rw [hlimit]
  | none =>
      rw [(pass_step hlimit).1]
      exact i.walk.artificials_step_le _

theorem artificials_passes_le (terms : Terms ω) (room : Nat) :
    ∀ i : Invocation ω τ γ, (passes terms room i).invocation.walk.dictionary.artificials
      ≤ i.walk.dictionary.artificials := by
  induction room with
  | zero => intro i; exact Nat.le_refl _
  | succ room ih =>
      intro i
      have hpass := artificials_pass_le terms i
      cases hverdict : (pass terms i).verdict with
      | stopped fault =>
          rw [passes_of_stopped hverdict]
          exact hpass
      | done status =>
          rw [passes_of_done hverdict]
          exact hpass
      | goOn =>
          rw [passes_of_goOn hverdict]
          exact (ih _).trans hpass

end Invocation

/-- **No invocation brings an artificial variable back**, also where it
stops at a fault. -/
theorem Loop.artificials_run_le (loop : Loop ω γ) (clock : Nat → Bool) (d : Dictionary τ) :
    (loop.run clock d).dictionary.artificials ≤ d.artificials := by
  by_cases hcount : loop.invocations + 1 < UInt64.size
  · cases hdraw : loop.settings.budget.draw loop.source with
    | error cause =>
        unfold run close
        rw [if_neg (Nat.not_le_of_lt hcount), hdraw]
    | ok drawn =>
        obtain ⟨limit, source⟩ := drawn
        obtain ⟨ended, rfl, -, hdictionary, -⟩ := loop.run_eq_passes clock (d := d) hcount hdraw
        rw [hdictionary]
        exact Invocation.artificials_passes_le _ _ _
  · rw [run_of_overflow clock hcount]

/-! ## §2. Paths that end with the last elimination. -/

namespace Dictionary

variable {s : Settings ω} {d d₁ d' : Dictionary τ} {source source₁ source' : γ} {c : Choice τ}
  {eliminated : Option Int} {cs : List (Choice τ)}

/-- **Pivots one after another, the last of which eliminates the last
artificial variable.** -/
inductive Clears (s : Settings ω) : Dictionary τ → γ → List (Choice τ) → Prop where
  | last {d d' : Dictionary τ} {source source' : γ} {c : Choice τ} {id : Int}
      (h : d.Steps s source (.pivoted c (some id)) d' source') (hzero : d'.artificials = 0) :
      Clears s d source [c]
  | cons {d d₁ : Dictionary τ} {source source₁ : γ} {c : Choice τ} {eliminated : Option Int}
      {cs : List (Choice τ)} (h : d.Steps s source (.pivoted c eliminated) d₁ source₁)
      (rest : Clears s d₁ source₁ cs) : Clears s d source (c :: cs)

theorem Steps.artificials_add (h : d.Steps s source (.pivoted c eliminated) d' source') :
    d'.artificials + eliminated.toList.length = d.artificials := by
  cases h with
  | pivoted _ hmake => exact hmake.artificials_add

/-- A pivot that leaves no artificial variable eliminated the last one, or
there was none before it. -/
theorem Steps.becameFeasible (h : d.Steps s source (.pivoted c eliminated) d' source')
    (hzero : d'.artificials = 0) (hbefore : d.artificials ≠ 0) :
    Invocation.becameFeasible d' eliminated = true := by
  have hsum := h.artificials_add
  cases eliminated with
  | none =>
      rw [Option.toList_none, List.length_nil] at hsum
      omega
  | some id => exact Invocation.becameFeasible_iff.2 ⟨⟨id, rfl⟩, hzero⟩

theorem not_clears_nil : ¬ d.Clears s source [] := by
  intro h
  cases h

/-- **The first pivot of such a path** is the last one as well, or the rest
is such a path. -/
theorem Steps.clears_cons_iff (h : d.Steps s source (.pivoted c eliminated) d₁ source₁) :
    d.Clears s source (c :: cs) ↔
      (cs = [] ∧ Invocation.becameFeasible d₁ eliminated = true) ∨ d₁.Clears s source₁ cs := by
  constructor
  · intro hclears
    -- a position decides its step
    cases hclears with
    | last hlast hzero =>
        obtain ⟨hr, rfl, rfl⟩ := h.unique hlast
        cases hr
        exact .inl ⟨rfl, Invocation.becameFeasible_iff.2 ⟨⟨_, rfl⟩, hzero⟩⟩
    | cons hfirst hrest =>
        obtain ⟨hr, rfl, rfl⟩ := h.unique hfirst
        cases hr
        exact .inr hrest
  · intro hcases
    rcases hcases with ⟨rfl, hfeasible⟩ | hrest
    · obtain ⟨⟨id, rfl⟩, hzero⟩ := Invocation.becameFeasible_iff.1 hfeasible
      exact .last h hzero
    · exact .cons h hrest

/-- There is an artificial variable to begin with. -/
theorem Clears.artificials_ne_zero (h : d.Clears s source cs) : d.artificials ≠ 0 := by
  induction h with
  | last h hzero =>
      have hsum := h.artificials_add
      rw [Option.toList_some, List.length_singleton] at hsum
      omega
  | cons h _ ih =>
      have hsum := h.artificials_add
      omega

theorem Path.eq_of_nil (h : d.Path s source [] d' source') : d' = d ∧ source' = source := by
  cases h
  exact ⟨rfl, rfl⟩

end Dictionary

/-- Behind its path an invocation changes nothing but the source. -/
theorem Status.Ends.dictionary_eq {s : Settings ω} {d d' : Dictionary τ} {source source' : γ}
    {status : Status} (h : status.Ends s d source d' source') : d' = d := by
  cases status with
  | optimal =>
      cases h
      rfl
  | unbounded =>
      obtain ⟨col, id, hsteps, -⟩ := h
      cases hsteps
      rfl
  | feasible => exact h.1
  | budgetExhausted => exact h.1

/-! ## §3. One pass. -/

namespace Invocation

variable {terms : Terms ω} {i : Invocation ω τ γ}

/-- **The exits of a pass**: what was made in it, and why it ended the
invocation. -/
inductive Exits (terms : Terms ω) (i : Invocation ω τ γ) : Passed ω τ γ → Status → Prop where
  | spent {limit : Nat} {p : Passed ω τ γ} (h : spentLimit terms i = some limit)
      (hpivots : p.journal.pivots = []) (hsame : p.invocation = i) :
      Exits terms i p .budgetExhausted
  | found {p : Passed ω τ γ} {status : Status} (hlast : status.isResumable = false)
      (hpivots : p.journal.pivots = []) : Exits terms i p status
  | feasible {p : Passed ω τ γ} {c : Choice τ} {eliminated : Option Int}
      (h : i.walk.dictionary.Steps terms.settings i.walk.source (.pivoted c eliminated)
        p.invocation.walk.dictionary p.invocation.walk.source)
      (hpivots : p.journal.pivots = [c])
      (hfeasible : becameFeasible p.invocation.walk.dictionary eliminated = true)
      (honward : terms.settings.continueAfterFeasible = false) : Exits terms i p .feasible

/-- **A pass ends an invocation at one of its exits.** -/
theorem pass_exits {status : Status} (h : (pass terms i).verdict = .done status) :
    Exits terms i (pass terms i) status := by
  have hlasts : ∀ fault, (pass terms i).verdict ≠ .stopped fault := by
    intro fault
    rw [h]
    simp
  obtain ⟨limit, hlimit, hpass⟩ | ⟨r, d', source', hlimit, hsteps, hroom⟩ := pass_cases hlasts
  · rw [hpass] at h ⊢
    cases h
    exact .spent hlimit rfl rfl
  · obtain ⟨hwalk, -, hpivots, hverdict⟩ := pass_of_steps hlimit hsteps hroom
    rw [h] at hverdict
    obtain ⟨rfl, rfl⟩ | ⟨col, id, rfl, -, rfl⟩ | ⟨c, eliminated, rfl, rfl⟩ :=
      StepResult.verdict_eq_done hverdict.symm
    · exact .found rfl hpivots
    · exact .found rfl hpivots
    · unfold StepResult.verdict at hverdict
      dsimp only at hverdict
      split at hverdict
      next hstop =>
        rw [Bool.and_eq_true, Bool.not_eq_true'] at hstop
        have hsteps' : i.walk.dictionary.Steps terms.settings i.walk.source
            (.pivoted c eliminated) (pass terms i).invocation.walk.dictionary
            (pass terms i).invocation.walk.source := by
          rw [hwalk]
          exact hsteps
        have hfeasible :
            becameFeasible (pass terms i).invocation.walk.dictionary eliminated = true := by
          rw [hwalk]
          exact hstop.1
        exact .feasible hsteps' hpivots hfeasible hstop.2
      next => cases hverdict

/-! ## §4. All passes. -/

/-- **What passes tell by the status that ends them.**  An invocation under
way may have spent its limit before it made a pivot; otherwise it spends it
exactly, or at the pivot that eliminates the last artificial variable. -/
structure Ended.Tells (terms : Terms ω) (i : Invocation ω τ γ) (ended : Ended ω τ γ)
    (status : Status) : Prop where
  feasible_iff : status = .feasible ↔
    terms.settings.continueAfterFeasible = false
      ∧ i.walk.dictionary.Clears terms.settings i.walk.source ended.journal.pivots
  zero : status.isResumable = true → ended.invocation.walk.dictionary.artificials = 0
  spent : status = .budgetExhausted → ∃ limit, terms.limit = some limit
    ∧ limit ≤ ended.invocation.steps
    ∧ ((ended.journal.pivots = [] ∧ ended.invocation = i) ∨ ended.invocation.steps = limit
      ∨ i.walk.dictionary.Clears terms.settings i.walk.source ended.journal.pivots)

theorem Exits.tells {p : Passed ω τ γ} {status : Status} (h : Exits terms i p status) :
    Ended.Tells terms i ⟨p.invocation, p.journal, .ok status⟩ status := by
  cases h with
  | spent hlimit hpivots hsame =>
      refine ⟨?_, ?_, ?_⟩
      · rw [hpivots]
        simp [Dictionary.not_clears_nil]
      · intro _
        rw [hsame]
        exact artificials_of_spentLimit hlimit
      · intro _
        obtain ⟨hl, hle⟩ := limit_of_spentLimit hlimit
        exact ⟨_, hl, by rw [hsame]; exact hle, .inl ⟨hpivots, hsame⟩⟩
  | found hlast hpivots =>
      refine ⟨?_, ?_, ?_⟩
      · rw [hpivots]
        constructor
        · rintro rfl
          cases hlast
        · intro hclears
          exact absurd hclears.2 Dictionary.not_clears_nil
      · intro hmore
        rw [hlast] at hmore
        cases hmore
      · rintro rfl
        cases hlast
  | feasible hsteps hpivots hfeasible honward =>
      refine ⟨?_, ?_, ?_⟩
      · rw [hpivots]
        have hclears := hsteps.clears_cons_iff.2 (.inl ⟨rfl, hfeasible⟩)
        exact ⟨fun _ => ⟨honward, hclears⟩, fun _ => rfl⟩
      · intro _
        exact (becameFeasible_iff.1 hfeasible).2
      · intro hstatus
        cases hstatus

/-- **One pass more in front tells the same.** -/
theorem Ended.Tells.onward {ended : Ended ω τ γ} {status : Status}
    (hgo : (pass terms i).verdict = .goOn)
    (h : Ended.Tells terms (pass terms i).invocation ended status) :
    Ended.Tells terms i { ended with journal := (pass terms i).journal ++ ended.journal }
      status := by
  obtain ⟨hlimit, c, eliminated, hsteps, hpivots, hcount, -, honward⟩ := pass_goOn hgo
  have hjournal : Journal.pivots ((pass terms i).journal ++ ended.journal)
      = c :: ended.journal.pivots := by
    rw [Journal.pivots_append, hpivots]
    rfl
  refine ⟨?_, h.zero, ?_⟩
  · rw [h.feasible_iff, hjournal, hsteps.clears_cons_iff]
    -- this pass did not stop, so the first pivot was not the last one
    constructor
    · intro hrest
      exact ⟨hrest.1, .inr hrest.2⟩
    · rintro ⟨hstop, ⟨-, hfeasible⟩ | hrest⟩
      · rw [honward hfeasible] at hstop
        cases hstop
      · exact ⟨hstop, hrest⟩
  · intro hstatus
    obtain ⟨limit, hl, hle, hspent⟩ := h.spent hstatus
    refine ⟨limit, hl, hle, .inr ?_⟩
    rw [hjournal, hsteps.clears_cons_iff]
    rcases hspent with ⟨hnone, hsame⟩ | hexact | hrest
    · have hzero := h.zero (by rw [hstatus]; rfl)
      rw [hsame] at hzero
      by_cases hbefore : i.walk.dictionary.artificials = 0
      -- the limit counted before the pivot, and was not reached
      · have hlt := (spentLimit_eq_none_iff hl hbefore).1 hlimit
        left
        show ended.invocation.steps = limit
        have hsteps' : ended.invocation.steps = i.steps + 1 := by rw [hsame, hcount]
        omega
      · exact .inr (.inl ⟨hnone, hsteps.becameFeasible hzero hbefore⟩)
    · exact .inl hexact
    · exact .inr (.inr hrest)

/-- **All passes of an invocation tell what its status says.** -/
theorem passes_tells (terms : Terms ω) (room : Nat) :
    ∀ {i : Invocation ω τ γ} {status : Status}, (passes terms room i).result = .ok status →
      Ended.Tells terms i (passes terms room i) status := by
  induction room with
  | zero =>
      intro i status h
      cases h
  | succ room ih =>
      intro i status h
      cases hverdict : (pass terms i).verdict with
      | stopped fault =>
          rw [passes_of_stopped hverdict] at h
          cases h
      | done status' =>
          rw [passes_of_done hverdict] at h ⊢
          cases h
          exact (pass_exits hverdict).tells
      | goOn =>
          rw [passes_of_goOn hverdict] at h ⊢
          exact (ih h).onward hverdict

end Invocation

/-! ## §5. Limits that are drawn. -/

/-- A budget whose numbers fit into words. -/
def Budget.InWords : Budget → Prop
  | .unlimited => True
  | .fixed steps => steps < UInt64.size
  | .random _ high => high < UInt64.size

/-- What is drawn from a range of words is not below it. -/
theorem Source.le_of_drawBetween {low high n : Nat} {source after : γ}
    (h : drawBetween low high source = .ok (n, after)) (hhigh : high < UInt64.size) : low ≤ n := by
  unfold drawBetween at h
  split at h
  · cases h
  · dsimp only at h
    split at h
    -- the range of all words starts at zero
    · omega
    · cases h
      exact Nat.le_add_right _ _

/-- **No invocation has a limit of zero**, if the budget makes sense. -/
theorem Budget.one_le_of_draw {budget : Budget} {limit : Nat} {source after : γ}
    (hsound : (Settings.budgetFlaw budget : Option (SettingsError ω)) = none)
    (hwords : budget.InWords) (h : budget.draw source = .ok (some limit, after)) : 1 ≤ limit := by
  cases budget with
  | unlimited => cases h
  | fixed steps =>
      cases h
      cases limit with
      | zero => cases hsound
      | succ limit => exact Nat.le_add_left 1 limit
  | random low high =>
      have hlow : low ≠ 0 := by
        rintro rfl
        simp [Settings.budgetFlaw] at hsound
      unfold draw at h
      dsimp only at h
      split at h
      next n after' hdraw =>
        cases h
        have hle := Source.le_of_drawBetween hdraw hwords
        omega
      next => cases h

/-! ## §6. Outcomes. -/

/-- **An outcome that is true** of an invocation with some settings, the
limit that was drawn for it and the source after that, which began at a
dictionary. -/
structure Outcome.Truthful (o : Outcome ω) (s : Settings ω) (limit : Option Nat) (d : Dictionary τ)
    (source : γ) (ran : Ran ω τ γ) : Prop where
  /-- The steps are the pivots that were made, from the first dictionary to
  the last one. -/
  path : ∃ source', d.Path s source ran.journal.pivots ran.dictionary source'
  steps : o.steps = ran.journal.pivots.length
  columns : o.columns = ran.dictionary.tableau.width
  artificials : o.artificials = ran.dictionary.artificials
  objective : o.objective = Element.widen ran.dictionary.objective
  optimal : o.status = .optimal →
    ∀ column ∈ ran.dictionary.tableau.columns, column.objective ≤ (s.limits τ).epsObjective
  unbounded : o.status = .unbounded →
    ∃ column ∈ ran.dictionary.tableau.columns, (s.limits τ).epsObjective < column.objective
      ∧ ∀ entry ∈ column.entries, ¬ entry < -(s.limits τ).pivotTol
  feasible : o.status = .feasible ↔
    s.continueAfterFeasible = false ∧ d.Clears s source ran.journal.pivots
  budgetExhausted : o.status = .budgetExhausted →
    ran.dictionary.artificials = 0
      ∧ ∃ l, limit = some l ∧ 1 ≤ l ∧ l ≤ o.steps
        ∧ (o.steps = l ∨ d.Clears s source ran.journal.pivots)
  unchanged : o.status.isResumable = false → o.steps = 0 → ran.dictionary = d

/-- Where `unbounded` holds, some column improves and no entry of it bounds
a step. -/
theorem Status.HoldsAt.unbounded_column (hτ : Scalar.Comparable fun _ : τ => True)
    {s : Settings ω} {d : Dictionary τ} (hd : d.WellFormed) (h : Status.unbounded.HoldsAt s d) :
    ∃ column ∈ d.tableau.columns, (s.limits τ).epsObjective < column.objective
      ∧ ∀ entry ∈ column.entries, ¬ entry < -(s.limits τ).pivotTol := by
  obtain ⟨col, j, column, hj, -, himproves, hnone⟩ := h
  have hmem : column ∈ d.tableau.columns := List.mem_of_getElem? hj
  have hheight : column.entries.length = d.tableau.height := d.tableau.uniform column hmem
  refine ⟨column, hmem, ?_, ?_⟩
  · by_contra hlt
    exact himproves (hτ.of_not_lt trivial trivial hlt)
  · rw [leavingRow_eq_none_iff hheight.symm (by rw [hd.left_length, hheight])] at hnone
    exact hnone

/-- **Every outcome is true.** -/
theorem Loop.run_truthful [Scalar ω] (hτ : Scalar.Comparable fun _ : τ => True) {loop : Loop ω γ}
    (clock : Nat → Bool) {d : Dictionary τ} {o : Outcome ω}
    (hs : loop.settings.validate = .ok ()) (hwords : loop.settings.budget.InWords)
    (hd : d.WellFormed) (h : (loop.run clock d).result = .ok o) :
    ∃ limit source, loop.settings.budget.draw loop.source = .ok (limit, source)
      ∧ o.Truthful loop.settings limit d source (loop.run clock d) := by
  obtain ⟨hreach, hstatus, hartificials, hobjective⟩ := loop.run_reaches clock hd h
  have hwf := hreach.wellFormed hd
  obtain ⟨limit, source, hdraw, ended, hended, hpivots, hdictionary, -, hresult, ho⟩ :=
    loop.exists_passes clock h
  rw [← hended] at hresult
  obtain ⟨d₁, source₁, hpath, hcount, hends⟩ := Invocation.passes_path _ hresult
  have htells := Invocation.passes_tells _ _ hresult
  rw [hended] at hpath hcount hends htells
  -- behind the last pivot nothing changed
  obtain rfl := hends.dictionary_eq
  rw [← hpivots, ← hdictionary] at hpath
  have hsteps : o.steps = ended.invocation.steps := congrArg Outcome.steps ho
  have hlength : o.steps = (loop.run clock d).journal.pivots.length := by
    rw [hsteps, hcount, hpivots]
    exact Nat.zero_add _
  refine ⟨limit, source, hdraw, ⟨⟨source₁, hpath⟩, hlength, ?_, hartificials, hobjective, ?_, ?_,
    ?_, ?_, ?_⟩⟩
  · rw [ho, hdictionary]
    rfl
  · intro hoptimal
    rw [hoptimal] at hstatus
    exact hstatus
  · intro hunbounded
    rw [hunbounded] at hstatus
    exact hstatus.unbounded_column hτ hwf
  · rw [hpivots]
    exact htells.feasible_iff
  · intro hspent
    rw [hdictionary]
    refine ⟨htells.zero (by rw [hspent]; rfl), ?_⟩
    obtain ⟨l, rfl, hle, hhow⟩ := htells.spent hspent
    have hpos := Budget.one_le_of_draw (Settings.budgetFlaw_of_validate hs) hwords hdraw
    rw [hsteps, hpivots]
    refine ⟨l, rfl, hpos, hle, hhow.resolve_left ?_⟩
    -- a limit of at least one step is not spent before the first one
    rintro ⟨-, hbegan⟩
    have hnone : ended.invocation.steps = 0 := congrArg Invocation.steps hbegan
    omega
  · intro _ hzero
    rw [hlength, List.length_eq_zero_iff] at hzero
    rw [hzero] at hpath
    exact hpath.eq_of_nil.1

/-! ## §7. Any number of calls. -/

/-- The status of an invocation, if it has an outcome. -/
def Ran.statuses (ran : Ran ω τ γ) : List Status :=
  match ran.result with
  | .ok o => [o.status]
  | .error _ => []

/-- **Calls one after another on what was one dictionary**, each with its
own settings and source, and the statuses of those with an outcome.  A call
that was stopped by a fault may be followed by others. -/
inductive Calls (ω : Type) {τ : Type} [Scalar τ] [Element ω τ] :
    Dictionary τ → List Status → Dictionary τ → Prop where
  | nil {d : Dictionary τ} : Calls ω d [] d
  | cons {γ : Type} [Source γ] {s : Settings ω} {d d' : Dictionary τ} {source after : γ}
      {ran : Ran ω τ γ} {statuses : List Status} (h : Call s d source ran after)
      (rest : Calls ω ran.dictionary statuses d') : Calls ω d (ran.statuses ++ statuses) d'

/-- A call that reports `feasible` had an artificial variable to eliminate,
and left none. -/
theorem Call.artificials_of_feasible {s : Settings ω} {d : Dictionary τ} {source after : γ}
    {ran : Ran ω τ γ} (h : Call s d source ran after) (hmem : .feasible ∈ ran.statuses) :
    d.artificials ≠ 0 ∧ ran.dictionary.artificials = 0 := by
  obtain ⟨loop, rfl, rfl, ⟨clock, rfl⟩, -⟩ := h.exists_loop
  unfold Ran.statuses at hmem
  split at hmem
  next o ho =>
    have hstatus : o.status = .feasible := (List.mem_singleton.1 hmem).symm
    obtain ⟨limit, drawn, -, ended, rfl, -, hdictionary, -, hresult, -⟩ :=
      loop.exists_passes clock ho
    have htells := Invocation.passes_tells _ _ hresult
    rw [hdictionary]
    exact ⟨(htells.feasible_iff.1 hstatus).2.artificials_ne_zero,
      htells.zero (by rw [hstatus]; rfl)⟩
  next => cases hmem

theorem Call.artificials_le {s : Settings ω} {d : Dictionary τ} {source after : γ}
    {ran : Ran ω τ γ} (h : Call s d source ran after) :
    ran.dictionary.artificials ≤ d.artificials := by
  obtain ⟨loop, -, -, ⟨clock, rfl⟩, -⟩ := h.exists_loop
  exact loop.artificials_run_le clock d

omit [Scalar τ] [Element ω τ] [Source γ] in
theorem Ran.count_statuses_le (ran : Ran ω τ γ) (status : Status) :
    ran.statuses.count status ≤ 1 := by
  unfold statuses
  split
  · exact List.count_le_length
  · exact Nat.zero_le 1

/-- Without artificial variables no call ever reports `feasible`. -/
theorem Calls.feasible_not_mem {d d' : Dictionary τ} {statuses : List Status}
    (h : Calls ω d statuses d') (hzero : d.artificials = 0) : .feasible ∉ statuses := by
  induction h with
  | nil => exact List.not_mem_nil
  | cons hcall _ ih =>
      intro hmem
      rcases List.mem_append.1 hmem with hhere | hlater
      · exact (hcall.artificials_of_feasible hhere).1 hzero
      · exact ih (Nat.le_zero.1 (hzero ▸ hcall.artificials_le)) hlater

/-- **At most one of any number of calls reports `feasible`.** -/
theorem Calls.count_feasible_le {d d' : Dictionary τ} {statuses : List Status}
    (h : Calls ω d statuses d') : statuses.count .feasible ≤ 1 := by
  induction h with
  | nil => exact Nat.zero_le 1
  | @cons γ _ s d d' source after ran statuses hcall hrest ih =>
      rw [List.count_append]
      by_cases hhere : .feasible ∈ ran.statuses
      -- from here on there is nothing left to eliminate
      · have hlater := hrest.feasible_not_mem (hcall.artificials_of_feasible hhere).2
        rw [List.count_eq_zero_of_not_mem hlater]
        exact ran.count_statuses_le .feasible
      · rw [List.count_eq_zero_of_not_mem hhere, Nat.zero_add]
        exact ih

/-- **THE STATUSES ARE TRUE.**  For any arithmetic in which all values can
be compared:

  * whatever an invocation with valid settings reports of a valid
    dictionary is true, for any source, any clock and any limit that was
    drawn;
  * of any number of calls with any settings at most one reports
    `feasible`, and none does that begins without artificial
    variables. -/
theorem Call.truthful [Scalar ω] (hτ : Scalar.Comparable fun _ : τ => True) :
    (∀ (γ : Type) [Source γ] (s : Settings ω) (d : Dictionary τ) (source after : γ)
        (ran : Ran ω τ γ) (o : Outcome ω), s.validate = .ok () → s.budget.InWords →
        d.validate = .ok () → Call s d source ran after → ran.result = .ok o →
        ∃ limit drawn, s.budget.draw source = .ok (limit, drawn)
          ∧ o.Truthful s limit d drawn ran)
      ∧ ∀ (d d' : Dictionary τ) (statuses : List Status), Calls ω d statuses d' →
          statuses.count .feasible ≤ 1 ∧ (d.artificials = 0 → .feasible ∉ statuses) := by
  constructor
  · intro γ _ s d source after ran o hs hwords hd hcall hr
    obtain ⟨loop, rfl, rfl, ⟨clock, rfl⟩, -⟩ := hcall.exists_loop
    exact loop.run_truthful hτ clock hs hwords (Dictionary.validate_eq_ok_iff.1 hd).1 hr
  · intro d d' statuses hcalls
    exact ⟨hcalls.count_feasible_le, hcalls.feasible_not_mem⟩

/-- A loop with a budget of one step that goes on into phase 2. -/
def Loop.oneStepOnward : Loop Rat (Nat → UInt64) :=
  { Loop.exact with
    settings := { Settings.exact with budget := .fixed 1, continueAfterFeasible := true } }

/-- An invocation that stops when the two equations are feasible, and the
one after it. -/
def Calls.twice : List (Ran Rat Rat (Nat → UInt64)) :=
  let first := Loop.exact.run (fun _ => false) Dictionary.twoEquations
  [first, first.loop.run (fun _ => false) first.dictionary]

/-- Phase 1 takes two steps and is not interrupted by a limit of one; the
limit is spent at the step that eliminates the last artificial variable.  A
loop that stops there reports `feasible`, and the next call cannot. -/
theorem Call.truthful_twoEquations :
    Dictionary.twoEquations.Clears Loop.oneStepOnward.settings (fun _ => 0 : Nat → UInt64)
        (Loop.oneStepOnward.run (fun _ => false) Dictionary.twoEquations).journal.pivots
      ∧ Calls.twice.flatMap Ran.statuses = [.feasible, .optimal]
      ∧ (Calls.twice.flatMap Ran.statuses).count .feasible ≤ 1 := by
  have hspent : (Loop.oneStepOnward.run (fun _ => false) Dictionary.twoEquations).result
      = .ok ⟨.budgetExhausted, 2, 0, 0, 0⟩ := by cbv
  obtain ⟨htrue, hcount⟩ := Call.truthful (ω := Rat) comparable_rat
  obtain ⟨limit, drawn, hdraw, h⟩ := htrue _ Loop.oneStepOnward.settings Dictionary.twoEquations
    (fun _ => 0 : Nat → UInt64) _ _ _ (by rfl) (by show (1 : Nat) < _; decide) (by rfl)
    (.run Loop.oneStepOnward rfl rfl fun _ => false) hspent
  obtain ⟨rfl, rfl⟩ := Prod.mk.inj (Except.ok.inj hdraw)
  obtain ⟨-, l, hl, -, -, hmany | hclears⟩ := h.budgetExhausted rfl
  · cases hl
    cases hmany
  · have hcalls := Calls.cons (.run (d := Dictionary.twoEquations) Loop.exact rfl rfl fun _ => false)
      (.cons (.run (Loop.exact.run (fun _ => false) Dictionary.twoEquations).loop rfl rfl
        fun _ => false) .nil)
    exact ⟨hclears, by cbv, (hcount _ _ _ hcalls).1⟩

end DenseSimplex
