/-
  DenseSimplex.Proofs.Invocations
  ───────────────────────────────
  **INVOCATIONS FOLLOW PATHS.**

  An invocation with an outcome followed a path and met its status where
  the path ended (`Loop.run_path`).  Conversely a path that ends where no
  pivot is possible is followed to its end by every invocation without a
  limit, unless it stops on the way at a feasible basis
  (`Loop.run_along_path`).

  A limit counts in phase 2 only.  There, an invocation makes no more
  pivots than that, and says that the limit is spent exactly if it made as
  many (`Loop.run_limited`).
-/
import DenseSimplex.Proofs.Paths

namespace DenseSimplex

/-! ## §1. Verdicts and limits. -/

section

variable {ω τ : Type}

/-- The verdict of a pass whose step led to a dictionary, with or without
leave to go on when the basis becomes feasible. -/
def StepResult.verdict (onward : Bool) (d : Dictionary τ) : StepResult τ → Verdict τ
  | .optimal => .done .optimal
  | .unbounded col =>
      match d.rightLabel col with
      | .ok _ => .done .unbounded
      | .error fault => .stopped fault
  | .pivoted _ eliminated =>
      if Invocation.becameFeasible d eliminated && !onward then .done .feasible else .goOn

/-- After a pivot a pass goes on, or stops at a feasible basis. -/
theorem StepResult.verdict_pivoted {onward : Bool} {d : Dictionary τ} {c : Choice τ}
    {eliminated : Option Int} {v : Verdict τ} (h : v = (pivoted c eliminated).verdict onward d) :
    (onward = false ∧ v = .done .feasible) ∨ v = .goOn := by
  unfold verdict at h
  dsimp only at h
  split at h
  next hstop =>
    rw [Bool.and_eq_true, Bool.not_eq_true'] at hstop
    exact .inl ⟨hstop.2, h⟩
  next => exact .inr h

/-- A pass goes on after pivots only. -/
theorem StepResult.verdict_eq_goOn {onward : Bool} {d : Dictionary τ} {r : StepResult τ}
    (h : r.verdict onward d = .goOn) : ∃ c eliminated, r = .pivoted c eliminated := by
  cases r with
  | optimal => cases h
  | unbounded col =>
      unfold verdict at h
      dsimp only at h
      split at h <;> cases h
  | pivoted c eliminated => exact ⟨c, eliminated, rfl⟩

/-- What a pass found that ends with a status after its step. -/
theorem StepResult.verdict_eq_done {onward : Bool} {d : Dictionary τ} {r : StepResult τ}
    {status : Status} (h : r.verdict onward d = .done status) :
    (r = .optimal ∧ status = .optimal)
      ∨ (∃ col id, r = .unbounded col ∧ d.rightLabel col = .ok id ∧ status = .unbounded)
      ∨ ∃ c eliminated, r = .pivoted c eliminated ∧ status = .feasible := by
  cases r with
  | optimal =>
      cases h
      exact .inl ⟨rfl, rfl⟩
  | unbounded col =>
      unfold verdict at h
      dsimp only at h
      split at h
      next id hid =>
        cases h
        exact .inr (.inl ⟨col, id, rfl, hid, rfl⟩)
      · cases h
  | pivoted c eliminated =>
      unfold verdict at h
      dsimp only at h
      split at h
      · cases h
        exact .inr (.inr ⟨c, eliminated, rfl, rfl⟩)
      · cases h

theorem Invocation.pivots_pivotEvents (d : Dictionary τ) (step : Nat) (choice : Choice τ)
    (eliminated : Option Int) :
    Journal.pivots (pivotEvents d step choice eliminated : Journal ω τ) = [choice] := by
  unfold pivotEvents
  split <;> rfl

theorem Invocation.pivots_report {γ : Type} [Element ω τ] (terms : Terms ω)
    (i : Invocation ω τ γ) : (report terms i).pivots = [] := by
  unfold report
  split <;> rfl

theorem Loop.pivots_closingEvents (invocation : Nat) (o : Outcome ω) :
    Journal.pivots (closingEvents invocation o : Journal ω τ) = [] := by
  unfold closingEvents
  split <;> rfl

theorem Invocation.spentLimit_of_unlimited {γ : Type} {terms : Terms ω}
    (hlimit : terms.limit = none) (i : Invocation ω τ γ) : spentLimit terms i = none := by
  unfold spentLimit
  rw [hlimit]
  cases i.walk.dictionary.phase <;> rfl

/-- Without artificial variables a limit counts from the first step. -/
theorem Invocation.spentLimit_eq_none_iff {γ : Type} {terms : Terms ω} {i : Invocation ω τ γ}
    {limit : Nat} (hlimit : terms.limit = some limit) (hzero : i.walk.dictionary.artificials = 0) :
    spentLimit terms i = none ↔ i.steps < limit := by
  simp [spentLimit, Dictionary.phase, hzero, hlimit]

/-- An invocation that had made some steps makes no more than a limit in
all, and says that the limit is spent exactly if it makes as many. -/
def Invocation.Ended.KeepsTo {γ : Type} (ended : Ended ω τ γ) (limit steps : Nat) : Prop :=
  steps + ended.journal.pivots.length ≤ limit
    ∧ (ended.result = .ok .budgetExhausted ↔ steps + ended.journal.pivots.length = limit)

theorem Invocation.Ended.KeepsTo.of_no_pivots {γ : Type} {ended : Ended ω τ γ}
    {limit steps : Nat} (hlt : steps < limit) (hnone : ended.journal.pivots = [])
    (hother : ended.result ≠ .ok .budgetExhausted) : ended.KeepsTo limit steps := by
  unfold KeepsTo
  rw [hnone]
  exact ⟨Nat.le_of_lt hlt, fun h => absurd h hother, fun h => absurd h (Nat.ne_of_lt hlt)⟩

end

variable {ω τ γ : Type} [Scalar τ] [Element ω τ] [Source γ]

/-- **What an invocation does at the end of its path** when it ends with a
status: a last step that makes no pivot, but may use up coins, or
nothing. -/
def Status.Ends (s : Settings ω) (d : Dictionary τ) (source : γ) (d' : Dictionary τ)
    (source' : γ) : Status → Prop
  | .optimal => d.Steps s source .optimal d' source'
  | .unbounded =>
      ∃ col id, d.Steps s source (.unbounded col) d' source' ∧ d'.rightLabel col = .ok id
  | .feasible | .budgetExhausted => d' = d ∧ source' = source

/-! ## §2. Passes. -/

namespace Invocation

variable {terms : Terms ω} {i : Invocation ω τ γ}

/-- **A pass takes one step**, unless a limit is spent. -/
theorem pass_of_steps {r : StepResult τ} {d' : Dictionary τ} {source' : γ}
    (hlimit : spentLimit terms i = none)
    (h : i.walk.dictionary.Steps terms.settings i.walk.source r d' source')
    (hroom : r.pivots ≠ [] → i.walk.totalSteps + 1 < UInt64.size) :
    (pass terms i).invocation.walk = ⟨d', source', i.walk.totalSteps + r.pivots.length⟩
      ∧ (pass terms i).invocation.steps = i.steps + r.pivots.length
      ∧ (pass terms i).journal.pivots = r.pivots
      ∧ (pass terms i).verdict = r.verdict terms.settings.continueAfterFeasible d' := by
  have hnone := Walk.pivots_step terms.settings i.walk
  obtain ⟨journal, hstep⟩ := h.step_eq hroom
  rw [hstep] at hnone
  unfold pass
  rw [hlimit]
  dsimp only
  rw [Journal.pivots_append, pivots_report, List.nil_append, hstep]
  unfold conclude StepResult.verdict
  cases r with
  | optimal => exact ⟨rfl, rfl, hnone, rfl⟩
  | unbounded col =>
      dsimp only
      cases d'.rightLabel col with
      | error fault => exact ⟨rfl, rfl, hnone, rfl⟩
      | ok id =>
          refine ⟨rfl, rfl, ?_, rfl⟩
          rw [Journal.pivots_append, hnone]
          rfl
  | pivoted c eliminated =>
      have hpivots : ∀ step,
          Journal.pivots (journal ++ pivotEvents d' step c eliminated) = [c] := by
        intro step
        rw [Journal.pivots_append, hnone, pivots_pivotEvents]
        rfl
      dsimp only
      split
      · exact ⟨rfl, rfl, hpivots _, rfl⟩
      · exact ⟨rfl, rfl, hpivots _, rfl⟩

/-- **A pass stops where its step stops.** -/
theorem pass_of_error (hlimit : spentLimit terms i = none) {fault : Fault τ}
    (h : (i.walk.step terms.settings).result = .error fault) :
    (pass terms i).verdict = .stopped fault ∧ (pass terms i).journal.pivots = [] := by
  unfold pass conclude
  rw [hlimit]
  dsimp only
  rw [h, Journal.pivots_append, pivots_report, Walk.pivots_step]
  exact ⟨rfl, rfl⟩

/-- A pass that is not stopped found its limit spent, or took a step. -/
theorem pass_cases (h : ∀ fault, (pass terms i).verdict ≠ .stopped fault) :
    (∃ limit, spentLimit terms i = some limit
        ∧ pass terms i = ⟨i, [.budgetSpent limit], .done .budgetExhausted⟩)
      ∨ ∃ r d' source', spentLimit terms i = none
        ∧ i.walk.dictionary.Steps terms.settings i.walk.source r d' source'
        ∧ (r.pivots ≠ [] → i.walk.totalSteps + 1 < UInt64.size) := by
  cases hlimit : spentLimit terms i with
  | some limit =>
      left
      refine ⟨limit, rfl, ?_⟩
      unfold pass
      rw [hlimit]
  | none =>
      right
      cases hr : (i.walk.step terms.settings).result with
      | ok r =>
          obtain ⟨hsteps, hroom⟩ := Walk.steps_of_ok hr
          exact ⟨r, _, _, rfl, hsteps, hroom⟩
      | error fault => exact absurd (pass_of_error hlimit hr).1 (h fault)

/-- **A pass that goes on made a pivot**, and not one at which it was to
stop. -/
theorem pass_goOn (h : (pass terms i).verdict = .goOn) :
    spentLimit terms i = none
      ∧ ∃ c eliminated, i.walk.dictionary.Steps terms.settings i.walk.source
          (.pivoted c eliminated) (pass terms i).invocation.walk.dictionary
          (pass terms i).invocation.walk.source
        ∧ (pass terms i).journal.pivots = [c]
        ∧ (pass terms i).invocation.steps = i.steps + 1
        ∧ (pass terms i).invocation.walk.totalSteps = i.walk.totalSteps + 1
        ∧ (becameFeasible (pass terms i).invocation.walk.dictionary eliminated = true →
          terms.settings.continueAfterFeasible = true) := by
  have hlasts : ∀ fault, (pass terms i).verdict ≠ .stopped fault := by
    intro fault
    rw [h]
    simp
  obtain ⟨limit, -, hpass⟩ | ⟨r, d', source', hlimit, hsteps, hroom⟩ := pass_cases hlasts
  · rw [hpass] at h
    cases h
  · obtain ⟨hwalk, hcount, hpivots, hverdict⟩ := pass_of_steps hlimit hsteps hroom
    rw [h] at hverdict
    obtain ⟨c, eliminated, rfl⟩ := StepResult.verdict_eq_goOn hverdict.symm
    refine ⟨hlimit, c, eliminated, ?_, hpivots, hcount, ?_, ?_⟩
    · rw [hwalk]
      exact hsteps
    · rw [hwalk]
      rfl
    · rw [hwalk]
      intro hfeasible
      dsimp only at hfeasible
      unfold StepResult.verdict at hverdict
      cases honward : terms.settings.continueAfterFeasible with
      | true => rfl
      | false => simp [hfeasible, honward] at hverdict

/-- **A pass that is not stopped follows a path**, of one pivot or none,
and ends behind it if it ends the invocation. -/
theorem pass_path (h : ∀ fault, (pass terms i).verdict ≠ .stopped fault) :
    ∃ d₁ source₁, i.walk.dictionary.Path terms.settings i.walk.source (pass terms i).journal.pivots
        d₁ source₁
      ∧ (pass terms i).invocation.steps = i.steps + (pass terms i).journal.pivots.length
      ∧ ((pass terms i).verdict = .goOn → d₁ = (pass terms i).invocation.walk.dictionary
          ∧ source₁ = (pass terms i).invocation.walk.source)
      ∧ ∀ status, (pass terms i).verdict = .done status →
          status.Ends terms.settings d₁ source₁ (pass terms i).invocation.walk.dictionary
            (pass terms i).invocation.walk.source := by
  obtain ⟨limit, -, hpass⟩ | ⟨r, d', source', hlimit, hsteps, hroom⟩ := pass_cases h
  · rw [hpass]
    refine ⟨_, _, .nil, rfl, (fun hgo => by cases hgo), fun status hstatus => ?_⟩
    cases hstatus
    exact ⟨rfl, rfl⟩
  · obtain ⟨hwalk, hcount, hpivots, hverdict⟩ := pass_of_steps hlimit hsteps hroom
    rw [hwalk, hcount, hpivots, hverdict]
    cases r with
    | optimal =>
        refine ⟨_, _, .nil, rfl, (fun hgo => by cases hgo), fun status hstatus => ?_⟩
        cases hstatus
        exact hsteps
    | unbounded col =>
        refine ⟨_, _, .nil, rfl, fun hgo => ?_, fun status hstatus => ?_⟩
        · obtain ⟨c, eliminated, hr⟩ := StepResult.verdict_eq_goOn hgo
          cases hr
        · obtain ⟨hr, -⟩ | ⟨col', id, hr, hid, rfl⟩ | ⟨c, eliminated, hr, -⟩ :=
            StepResult.verdict_eq_done hstatus
          · cases hr
          · cases hr
            exact ⟨col, id, hsteps, hid⟩
          · cases hr
    | pivoted c eliminated =>
        refine ⟨d', source', .cons hsteps .nil, rfl, fun _ => ⟨rfl, rfl⟩, fun status hstatus => ?_⟩
        obtain ⟨hr, -⟩ | ⟨col, id, hr, -, -⟩ | ⟨-, -, -, rfl⟩ :=
          StepResult.verdict_eq_done hstatus
        · cases hr
        · cases hr
        · exact ⟨rfl, rfl⟩

/-! ## §3. Passes one after another. -/

/-- **The passes of an invocation follow a path** and end behind it. -/
theorem passes_path (room : Nat) {i : Invocation ω τ γ} {status : Status}
    (h : (passes terms room i).result = .ok status) :
    ∃ d₁ source₁, i.walk.dictionary.Path terms.settings i.walk.source
        (passes terms room i).journal.pivots d₁ source₁
      ∧ (passes terms room i).invocation.steps
          = i.steps + (passes terms room i).journal.pivots.length
      ∧ status.Ends terms.settings d₁ source₁ (passes terms room i).invocation.walk.dictionary
          (passes terms room i).invocation.walk.source := by
  induction room generalizing i with
  | zero => cases h
  | succ room ih =>
      unfold passes at h ⊢
      have hpass : (∀ fault, (pass terms i).verdict ≠ .stopped fault) → _ := pass_path
      generalize pass terms i = passed at h hpass ⊢
      obtain ⟨next, journal, verdict⟩ := passed
      cases verdict with
      | stopped fault => cases h
      | done status' =>
          cases h
          obtain ⟨d₁, source₁, hpath, hcount, -, hends⟩ := hpass (fun _ => by simp)
          exact ⟨d₁, source₁, hpath, hcount, hends status rfl⟩
      | goOn =>
          obtain ⟨d₁, source₁, hpath, hcount, hnext, -⟩ := hpass (fun _ => by simp)
          obtain ⟨rfl, rfl⟩ := hnext rfl
          obtain ⟨d₂, source₂, hrest, hcount', hends⟩ := ih h
          dsimp only at hcount ⊢
          rw [Journal.pivots_append]
          refine ⟨d₂, source₂, hpath.trans hrest, ?_, hends⟩
          rw [hcount', hcount, List.length_append, Nat.add_assoc]

theorem passes_of_done {room : Nat} {status : Status} (h : (pass terms i).verdict = .done status) :
    passes terms (room + 1) i
      = ⟨(pass terms i).invocation, (pass terms i).journal, .ok status⟩ := by
  simp only [passes, h]

theorem passes_of_stopped {room : Nat} {fault : Fault τ}
    (h : (pass terms i).verdict = .stopped fault) :
    passes terms (room + 1) i
      = ⟨(pass terms i).invocation, (pass terms i).journal, .error fault⟩ := by
  simp only [passes, h]

theorem passes_of_goOn {room : Nat} (h : (pass terms i).verdict = .goOn) :
    passes terms (room + 1) i =
      { passes terms room (pass terms i).invocation with
        journal :=
          (pass terms i).journal ++ (passes terms room (pass terms i).invocation).journal } := by
  simp only [passes, h]

/-- **Where no pivot is possible, a pass ends the invocation.** -/
theorem pass_of_ends {d' : Dictionary τ} {source' : γ} {status : Status}
    (hlimit : terms.limit = none)
    (hends : status.Ends terms.settings i.walk.dictionary i.walk.source d' source')
    (hlast : status.isResumable = false) :
    (pass terms i).verdict = .done status ∧ (pass terms i).journal.pivots = []
      ∧ (pass terms i).invocation.steps = i.steps
      ∧ (pass terms i).invocation.walk.dictionary = d'
      ∧ (pass terms i).invocation.walk.source = source' := by
  have hstep : ∃ r : StepResult τ,
      i.walk.dictionary.Steps terms.settings i.walk.source r d' source'
        ∧ r.pivots = [] ∧ r.verdict terms.settings.continueAfterFeasible d' = .done status := by
    cases status with
    | optimal => exact ⟨_, hends, rfl, rfl⟩
    | unbounded =>
        obtain ⟨col, id, hsteps, hid⟩ := hends
        exact ⟨_, hsteps, rfl, by simp only [StepResult.verdict, hid]⟩
    | feasible => cases hlast
    | budgetExhausted => cases hlast
  obtain ⟨r, hsteps, hnone, hdone⟩ := hstep
  obtain ⟨hwalk, hcount, hpivots, hverdict⟩ :=
    pass_of_steps (spentLimit_of_unlimited hlimit i) hsteps (fun hne => absurd hnone hne)
  rw [hwalk, hcount, hpivots, hverdict, hnone]
  exact ⟨hdone, rfl, rfl, rfl, rfl⟩

variable {d d₁ d' : Dictionary τ} {source source₁ source' : γ} {cs : List (Choice τ)}
  {status : Status} {room : Nat}

/-- **A path that ends where no pivot is possible is followed to its end**
by an invocation that has no limit, unless it stops on the way at a
feasible basis. -/
theorem passes_of_path (hlimit : terms.limit = none)
    (hpath : d.Path terms.settings source cs d₁ source₁)
    (hends : status.Ends terms.settings d₁ source₁ d' source') (hlast : status.isResumable = false)
    (hroom : cs.length < room) (hd : i.walk.dictionary = d) (hsource : i.walk.source = source)
    (hcounter : i.walk.totalSteps + cs.length < UInt64.size) :
    (terms.settings.continueAfterFeasible = false
        ∧ (passes terms room i).result = .ok .feasible
        ∧ (passes terms room i).invocation.steps ≤ i.steps + cs.length)
      ∨ ((passes terms room i).result = .ok status
        ∧ (passes terms room i).journal.pivots = cs
        ∧ (passes terms room i).invocation.steps = i.steps + cs.length
        ∧ (passes terms room i).invocation.walk.dictionary = d'
        ∧ (passes terms room i).invocation.walk.source = source') := by
  obtain ⟨room, rfl⟩ := Nat.exists_eq_succ_of_ne_zero (Nat.ne_zero_of_lt hroom)
  induction hpath generalizing i room with
  | nil =>
      subst hd hsource
      obtain ⟨hverdict, hrest⟩ := pass_of_ends hlimit hends hlast
      rw [passes_of_done hverdict]
      exact .inr ⟨rfl, hrest⟩
  | cons hsteps _ ih =>
      subst hd hsource
      rw [List.length_cons] at hroom hcounter ⊢
      obtain ⟨hwalk, hcount, hpivots, hverdict⟩ :=
        pass_of_steps (spentLimit_of_unlimited hlimit i) hsteps (fun _ => by omega)
      rw [StepResult.pivots, List.length_singleton] at hwalk hcount
      rcases StepResult.verdict_pivoted hverdict with ⟨honward, hdone⟩ | hgo
      · rw [passes_of_done hdone]
        exact .inl ⟨honward, rfl, by dsimp only; omega⟩
      · obtain ⟨room, rfl⟩ := Nat.exists_eq_succ_of_ne_zero (show room ≠ 0 by omega)
        rw [passes_of_goOn hgo]
        rcases ih hends (i := (pass terms i).invocation) (by rw [hwalk]) (by rw [hwalk])
            (by rw [hwalk]; dsimp only; omega) room (by omega) with
          ⟨honward, hresult, hsum⟩ | ⟨hresult, hrest, hsum, hdictionary, hsource⟩
        · exact .inl ⟨honward, hresult, Nat.le_trans hsum (by omega)⟩
        · refine .inr ⟨hresult, ?_, ?_, hdictionary, hsource⟩
          · dsimp only
            rw [Journal.pivots_append, hpivots, hrest]
            rfl
          · dsimp only
            rw [hsum, hcount]
            omega

/-! ## §4. Limits. -/

/-- What a pass does without artificial variables, as long as no limit is
spent: it makes a pivot and goes on, or it ends the invocation without
one. -/
theorem pass_of_artificials_eq_zero (hspent : spentLimit terms i = none)
    (hzero : i.walk.dictionary.artificials = 0) :
    ((pass terms i).verdict = .goOn ∧ (pass terms i).journal.pivots.length = 1
        ∧ (pass terms i).invocation.walk.dictionary.artificials = 0
        ∧ (pass terms i).invocation.steps = i.steps + 1
        ∧ (pass terms i).invocation.walk.totalSteps = i.walk.totalSteps + 1
        ∧ i.walk.totalSteps + 1 < UInt64.size)
      ∨ ((pass terms i).journal.pivots = []
        ∧ ((∃ fault, (pass terms i).verdict = .stopped fault)
          ∨ ∃ status, (pass terms i).verdict = .done status ∧ status ≠ .budgetExhausted)) := by
  cases hr : (i.walk.step terms.settings).result with
  | error fault =>
      obtain ⟨hstopped, hpivots⟩ := pass_of_error hspent hr
      exact .inr ⟨hpivots, .inl ⟨fault, hstopped⟩⟩
  | ok r =>
      obtain ⟨hs, hfree⟩ := Walk.steps_of_ok hr
      obtain ⟨hwalk, hcount, hpivots, hverdict⟩ := pass_of_steps hspent hs hfree
      cases r with
      | optimal => exact .inr ⟨hpivots, .inr ⟨_, hverdict, by simp⟩⟩
      | unbounded col =>
          unfold StepResult.verdict at hverdict
          dsimp only at hverdict
          split at hverdict
          · exact .inr ⟨hpivots, .inr ⟨_, hverdict, by simp⟩⟩
          · exact .inr ⟨hpivots, .inl ⟨_, hverdict⟩⟩
      | pivoted c eliminated =>
          have hkept : (i.walk.step terms.settings).walk.dictionary.artificials = 0
              ∧ eliminated = none := by
            cases hs with
            | pivoted _ hmake => exact hmake.artificials_eq_zero hzero
          obtain ⟨hzero', rfl⟩ := hkept
          rw [hwalk, hpivots]
          -- nothing was eliminated, so the basis did not become feasible here
          exact .inl ⟨hverdict, rfl, hzero', hcount, rfl, hfree (by simp [StepResult.pivots])⟩

/-- **Without artificial variables an invocation keeps to its limit.** -/
theorem passes_keepsTo {limit : Nat} (hlimit : terms.limit = some limit) (room : Nat)
    {i : Invocation ω τ γ} (hzero : i.walk.dictionary.artificials = 0) (hsteps : i.steps ≤ limit)
    (hroom : i.steps = limit → room ≠ 0) (hcounter : UInt64.size ≤ i.walk.totalSteps + room) :
    (passes terms room i).KeepsTo limit i.steps := by
  induction room generalizing i with
  | zero =>
      have hlt : i.steps < limit := Nat.lt_of_le_of_ne hsteps (fun h => hroom h rfl)
      exact .of_no_pivots hlt rfl (fun h => by cases h)
  | succ room ih =>
      cases hspent : spentLimit terms i with
      | some spent =>
          have hge : ¬ i.steps < limit := by
            rw [← spentLimit_eq_none_iff hlimit hzero, hspent]
            simp
          have hpass : pass terms i = ⟨i, [.budgetSpent spent], .done .budgetExhausted⟩ := by
            unfold pass
            rw [hspent]
          rw [passes_of_done (congrArg Passed.verdict hpass), hpass]
          exact ⟨hsteps, fun _ => Nat.le_antisymm hsteps (Nat.le_of_not_lt hge), fun _ => rfl⟩
      | none =>
          have hlt := (spentLimit_eq_none_iff hlimit hzero).1 hspent
          obtain ⟨hgo, hone, hzero', hcount, htotal, hfree⟩
              | ⟨hpivots, ⟨fault, hstopped⟩ | ⟨status, hdone, hother⟩⟩ :=
            pass_of_artificials_eq_zero hspent hzero
          · have hrest := ih (i := (pass terms i).invocation) hzero' (by omega)
              (fun _ => by omega) (by omega)
            unfold Ended.KeepsTo at hrest ⊢
            rw [hcount] at hrest
            rw [passes_of_goOn hgo]
            dsimp only
            rw [Journal.pivots_append, List.length_append, hone, ← Nat.add_assoc]
            exact hrest
          · rw [passes_of_stopped hstopped]
            exact .of_no_pivots hlt hpivots (fun h => by cases h)
          · rw [passes_of_done hdone]
            exact .of_no_pivots hlt hpivots (fun h => hother (Except.ok.inj h))

end Invocation

/-! ## §5. Loops. -/

theorem Budget.draw_of_unlimited {budget : Budget} (h : budget = .unlimited) (source : γ) :
    budget.draw source = .ok (none, source) := by
  rw [h]
  rfl

theorem Budget.draw_of_fixed {budget : Budget} {limit : Nat} (h : budget = .fixed limit)
    (source : γ) : budget.draw source = .ok (some limit, source) := by
  rw [h]
  rfl

namespace Loop

variable {loop : Loop ω γ} (clock : Nat → Bool) {d d₁ d' : Dictionary τ} {source₁ source' : γ}
  {cs : List (Choice τ)} {status : Status}

/-- A loop that cannot count another invocation does nothing. -/
theorem run_of_overflow (h : ¬ loop.invocations + 1 < UInt64.size) :
    loop.run clock d = ⟨loop, d, [], .error .counterOverflow⟩ := by
  unfold run close
  rw [if_pos (Nat.le_of_not_lt h)]

/-- An invocation whose budget was drawn is its passes, between an event at
the beginning and some at the end. -/
theorem run_eq_passes {limit : Option Nat} {source : γ}
    (hcount : loop.invocations + 1 < UInt64.size)
    (hdraw : loop.settings.budget.draw loop.source = .ok (limit, source)) :
    ∃ ended : Invocation.Ended ω τ γ,
      Invocation.passes ⟨loop.settings, limit, clock⟩ (UInt64.size - loop.totalSteps)
          ⟨⟨d, source, loop.totalSteps⟩, 0, loop.shared⟩ = ended
        ∧ (loop.run clock d).journal.pivots = ended.journal.pivots
        ∧ (loop.run clock d).dictionary = ended.invocation.walk.dictionary
        ∧ (loop.run clock d).loop.source = ended.invocation.walk.source
        ∧ (∀ o, (loop.run clock d).result = .ok o ↔
            ∃ status, ended.result = .ok status ∧ o = ended.invocation.outcome status)
        ∧ ∀ fault, (loop.run clock d).result = .error fault ↔ ended.result = .error fault := by
  unfold run close
  rw [if_neg (Nat.not_le_of_lt hcount), hdraw]
  dsimp only
  generalize hended : Invocation.run _ (⟨walk _ d, 0, loop.shared⟩ : Invocation ω τ γ) = ended
  refine ⟨ended, hended, ?_⟩
  obtain ⟨i, journal, result⟩ := ended
  cases result with
  | error fault =>
      refine ⟨rfl, rfl, rfl, fun o => ⟨fun h => (by cases h), ?_⟩, fun fault' => ?_⟩
      · rintro ⟨status, h, -⟩
        cases h
      · simp
  | ok status =>
      refine ⟨?_, rfl, rfl, fun o => ⟨fun h => ?_, ?_⟩, fun fault => ?_⟩
      · dsimp only
        rw [Journal.pivots_append, pivots_closingEvents, List.append_nil]
        rfl
      · cases h
        exact ⟨status, rfl, rfl⟩
      · rintro ⟨status', h, rfl⟩
        cases h
        rfl
      · simp

/-- **An invocation with an outcome is its passes**, from the source that
is left when its budget was drawn. -/
theorem exists_passes {o : Outcome ω} (h : (loop.run clock d).result = .ok o) :
    ∃ limit source, loop.settings.budget.draw loop.source = .ok (limit, source)
      ∧ ∃ ended : Invocation.Ended ω τ γ,
        Invocation.passes ⟨loop.settings, limit, clock⟩ (UInt64.size - loop.totalSteps)
            ⟨⟨d, source, loop.totalSteps⟩, 0, loop.shared⟩ = ended
          ∧ (loop.run clock d).journal.pivots = ended.journal.pivots
          ∧ (loop.run clock d).dictionary = ended.invocation.walk.dictionary
          ∧ (loop.run clock d).loop.source = ended.invocation.walk.source
          ∧ ended.result = .ok o.status ∧ o = ended.invocation.outcome o.status := by
  by_cases hcount : loop.invocations + 1 < UInt64.size
  · cases hdraw : loop.settings.budget.draw loop.source with
    | error cause =>
        unfold run close at h
        rw [if_neg (Nat.not_le_of_lt hcount), hdraw] at h
        cases h
    | ok drawn =>
        obtain ⟨limit, source⟩ := drawn
        obtain ⟨ended, hended, hpivots, hdictionary, hsource, hresult, -⟩ :=
          run_eq_passes clock (d := d) hcount hdraw
        obtain ⟨status, hstatus, rfl⟩ := (hresult o).1 h
        exact ⟨limit, source, rfl, ended, hended, hpivots, hdictionary, hsource, hstatus, rfl⟩
  · rw [run_of_overflow clock hcount] at h
    cases h

/-- **An invocation with an outcome follows a path** and ends behind it. -/
theorem run_path {o : Outcome ω} (h : (loop.run clock d).result = .ok o) :
    ∃ limit source d₁ source₁, loop.settings.budget.draw loop.source = .ok (limit, source)
      ∧ d.Path loop.settings source (loop.run clock d).journal.pivots d₁ source₁
      ∧ o.steps = (loop.run clock d).journal.pivots.length
      ∧ o.status.Ends loop.settings d₁ source₁ (loop.run clock d).dictionary
          (loop.run clock d).loop.source := by
  obtain ⟨limit, source, hdraw, ended, rfl, hpivots, hdictionary, hsource, hstatus, ho⟩ :=
    exists_passes clock h
  obtain ⟨d₁, source₁, hpath, hsteps, hends⟩ := Invocation.passes_path _ hstatus
  rw [hpivots, hdictionary, hsource]
  refine ⟨limit, source, d₁, source₁, hdraw, hpath, ?_, hends⟩
  rw [ho]
  exact hsteps.trans (Nat.zero_add _)

/-- **A path that ends where no pivot is possible is followed to its end**
by an invocation with an unlimited budget, unless it stops on the way at a
feasible basis. -/
theorem run_along_path (hbudget : loop.settings.budget = .unlimited)
    (hpath : d.Path loop.settings loop.source cs d₁ source₁)
    (hends : status.Ends loop.settings d₁ source₁ d' source') (hlast : status.isResumable = false)
    (hcounter : loop.totalSteps + cs.length < UInt64.size)
    (hcount : loop.invocations + 1 < UInt64.size) :
    ∃ o : Outcome ω, (loop.run clock d).result = .ok o
      ∧ ((loop.settings.continueAfterFeasible = false ∧ o.status = .feasible
          ∧ o.steps ≤ cs.length)
        ∨ (o.status = status ∧ (loop.run clock d).journal.pivots = cs ∧ o.steps = cs.length
          ∧ (loop.run clock d).dictionary = d' ∧ (loop.run clock d).loop.source = source')) := by
  obtain ⟨ended, hended, hpivots, hdictionary, hsource, hresult, -⟩ :=
    run_eq_passes clock (d := d) hcount (Budget.draw_of_unlimited hbudget loop.source)
  have hlimit : (⟨loop.settings, none, clock⟩ : Terms ω).limit = none := rfl
  have hroom : cs.length < UInt64.size - loop.totalSteps := by omega
  have hpasses := Invocation.passes_of_path hlimit hpath hends hlast hroom
    (i := ⟨⟨d, loop.source, loop.totalSteps⟩, 0, loop.shared⟩) rfl rfl hcounter
  rw [hended, Nat.zero_add] at hpasses
  rw [hpivots, hdictionary, hsource]
  rcases hpasses with ⟨honward, hok, hle⟩ | ⟨hok, hrest⟩
  · exact ⟨_, (hresult _).2 ⟨_, hok, rfl⟩, .inl ⟨honward, rfl, hle⟩⟩
  · exact ⟨_, (hresult _).2 ⟨_, hok, rfl⟩, .inr ⟨rfl, hrest⟩⟩

/-- An invocation that nothing interrupts follows such a path to its
end. -/
theorem run_of_path (hbudget : loop.settings.budget = .unlimited)
    (honward : loop.settings.continueAfterFeasible = true)
    (hpath : d.Path loop.settings loop.source cs d₁ source₁)
    (hends : status.Ends loop.settings d₁ source₁ d' source') (hlast : status.isResumable = false)
    (hcounter : loop.totalSteps + cs.length < UInt64.size)
    (hcount : loop.invocations + 1 < UInt64.size) :
    ∃ o : Outcome ω, (loop.run clock d).result = .ok o ∧ o.status = status
      ∧ (loop.run clock d).journal.pivots = cs ∧ o.steps = cs.length
      ∧ (loop.run clock d).dictionary = d' ∧ (loop.run clock d).loop.source = source' := by
  obtain ⟨o, hr, ⟨hstops, -⟩ | hfollowed⟩ :=
    loop.run_along_path clock hbudget hpath hends hlast hcounter hcount
  · rw [honward] at hstops
    cases hstops
  · exact ⟨o, hr, hfollowed⟩

/-- No invocation with an unlimited budget goes further than such a
path. -/
theorem run_le_of_path (hbudget : loop.settings.budget = .unlimited)
    (hpath : d.Path loop.settings loop.source cs d₁ source₁)
    (hends : status.Ends loop.settings d₁ source₁ d' source') (hlast : status.isResumable = false)
    (hcounter : loop.totalSteps + cs.length < UInt64.size)
    (hcount : loop.invocations + 1 < UInt64.size) :
    ∃ o : Outcome ω, (loop.run clock d).result = .ok o ∧ o.status ≠ .budgetExhausted
      ∧ o.steps ≤ cs.length := by
  obtain ⟨o, hr, ⟨-, hstatus, hle⟩ | ⟨hstatus, -, hsteps, -⟩⟩ :=
    loop.run_along_path clock hbudget hpath hends hlast hcounter hcount
  · exact ⟨o, hr, by simp [hstatus], hle⟩
  · refine ⟨o, hr, ?_, Nat.le_of_eq hsteps⟩
    intro hspent
    rw [← hstatus, hspent] at hlast
    cases hlast

/-- **Without artificial variables an invocation keeps to its limit**, and
says that it is spent exactly if it made that many pivots. -/
theorem run_limited {limit : Nat} (hbudget : loop.settings.budget = .fixed limit)
    (hlimit : 1 ≤ limit) (hzero : d.artificials = 0) :
    (loop.run clock d).journal.pivots.length ≤ limit
      ∧ ((∃ o, (loop.run clock d).result = .ok o ∧ o.status = .budgetExhausted) ↔
          (loop.run clock d).journal.pivots.length = limit) := by
  by_cases hcount : loop.invocations + 1 < UInt64.size
  · obtain ⟨ended, hended, hpivots, -, -, hresult, -⟩ :=
      run_eq_passes clock (d := d) hcount (Budget.draw_of_fixed hbudget loop.source)
    have hlimit' : (⟨loop.settings, some limit, clock⟩ : Terms ω).limit = some limit := rfl
    obtain ⟨hle, hiff⟩ := Invocation.passes_keepsTo hlimit' (UInt64.size - loop.totalSteps)
      (i := ⟨⟨d, loop.source, loop.totalSteps⟩, 0, loop.shared⟩) hzero (Nat.zero_le _)
      (fun h => absurd h (Nat.ne_of_lt hlimit)) (by show _ ≤ loop.totalSteps + _; omega)
    rw [hended, Nat.zero_add] at hle hiff
    rw [hpivots, ← hiff]
    refine ⟨hle, ?_, fun h => ⟨_, (hresult _).2 ⟨_, h, rfl⟩, rfl⟩⟩
    rintro ⟨o, ho, hstatus⟩
    obtain ⟨status, hok, rfl⟩ := (hresult o).1 ho
    rw [hok]
    exact congrArg _ hstatus
  · rw [run_of_overflow clock hcount]
    refine ⟨Nat.zero_le _, ?_, fun h => absurd h (Nat.ne_of_lt hlimit)⟩
    rintro ⟨o, ho, -⟩
    cases ho

end Loop

end DenseSimplex
