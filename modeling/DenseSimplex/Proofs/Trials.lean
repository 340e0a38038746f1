/-
  DenseSimplex.Proofs.Trials
  ──────────────────────────
  **A TRIAL FINDS THE OPTIMUM OF ITS PROGRAM.**

  Phase 1 leads from the first dictionary `d` to a dictionary `d₁` without
  artificial variables, or the trial reports that some are left.  Then row
  0 is replaced by the true objective, and phase 2 starts.  What is solved
  there is the program of the sample:

      points of the program             Sample.Admits
        ↕  slacks are what is left over
      solutions of d, x ≥ 0, artificial variables zero
        ↕  Reaches.restricts
      solutions of d₁, x ≥ 0
        ↕  solves_installObjective_iff
      admissible assignments of the priced d₁, with the total cost.

  So both have the same values (`Sample.Starts.values_installObjective`),
  and the answer of phase 2 is the answer to the program, however often
  budgets interrupt it (`phaseTwo_spec`).  The values are bounded,
  since the sum of a point is, and so no answer is `unbounded`.
-/
import DenseSimplex.Proofs.Draws
import DenseSimplex.Proofs.Schedule
import DenseSimplex.Bench.Trial

namespace DenseSimplex

open LinearProgram (dot)

/-! ## §1. What phase 2 solves. -/

namespace LinearProgram

variable (p : LinearProgram Rat)

theorem cost_of_isArtificial {id : Int} (h : isArtificial id = true) : p.cost id = 0 := by
  rw [isArtificial_iff] at h
  unfold cost
  rw [if_neg (by omega)]

theorem cost_of_length_lt {id : Int} (h : (p.costs.length : Int) < id) : p.cost id = 0 := by
  unfold cost
  rw [List.getElem?_eq_none (by omega)]
  split <;> rfl

theorem cost_succ {j : Nat} (h : j < p.costs.length) : p.cost ((j + 1 : Nat) : Int) = p.costs[j] := by
  unfold cost
  rw [if_pos (by omega), Int.toNat_natCast, Nat.add_sub_cancel, List.getElem?_eq_getElem h]
  rfl

theorem totalCost_eq_zero {x : Int → Rat} {ids : List Int} (h : ∀ id ∈ ids, p.cost id = 0) :
    p.totalCost x ids = 0 := by
  apply List.sum_eq_zero
  intro v hv
  obtain ⟨id, hid, rfl⟩ := List.mem_map.1 hv
  rw [h id hid, zero_mul]

theorem totalCost_append (x : Int → Rat) (ids ids' : List Int) :
    p.totalCost x (ids ++ ids') = p.totalCost x ids + p.totalCost x ids' := by
  unfold totalCost
  rw [List.map_append, List.sum_append]

end LinearProgram

namespace Sample

variable {s : Sample Rat} {d d₁ : Dictionary Rat} {ids : List Int}

/-- **Only the variables of the program cost anything.** -/
theorem Starts.totalCost_labels (h : s.Starts d) (hcosts : s.costs.length = s.point.length)
    (x : Int → Rat) :
    (LinearProgram.ofSample s).totalCost x d.labels = dot s.costs (d.right.map x) := by
  have hleft : (LinearProgram.ofSample s).totalCost x d.left = 0 := by
    apply LinearProgram.totalCost_eq_zero
    intro id hid
    obtain ⟨k, hk⟩ := List.getElem?_of_mem hid
    obtain ⟨-, hbig⟩ | ⟨-, hart⟩ := h.left_at hk
    · apply LinearProgram.cost_of_length_lt
      show (s.costs.length : Int) < id
      rwa [hcosts]
    · exact LinearProgram.cost_of_isArtificial _ hart
  have hright : d.right.map (fun id => (LinearProgram.ofSample s).cost id * x id)
      = List.zipWith (· * ·) s.costs (d.right.map x) := by
    rw [h.right]
    apply List.ext_getElem
    · simp [hcosts]
    · intro j hj _
      rw [List.length_map, List.length_map, List.length_range, ← hcosts] at hj
      simp only [List.getElem_map, List.getElem_zipWith, List.getElem_range]
      rw [(LinearProgram.ofSample s).cost_succ hj]
      rfl
  rw [Dictionary.labels, LinearProgram.totalCost_append, hleft, zero_add,
    LinearProgram.dot_eq_sum, ← hright]
  rfl

/-- **After phase 1, with all artificial variables eliminated**: what they
were. -/
theorem Starts.mem_eliminated_iff (h : s.Starts d) {P : Settings Rat → Prop}
    (hreach : Dictionary.Reaches P d ids d₁) (hzero : d₁.artificials = 0) {id : Int} :
    id ∈ ids ↔ id ∈ d.left ∧ isArtificial id = true := by
  have hlabels := hreach.labels_perm
  constructor
  · intro hid
    have hart := hreach.isArtificial id hid
    refine ⟨?_, hart⟩
    have hmem := hlabels.mem_iff.2 (List.mem_append_left _ hid)
    refine (List.mem_append.1 hmem).resolve_right fun hright => ?_
    have hpos := (h.mem_right_iff.1 hright).1
    rw [isArtificial_iff] at hart
    omega
  · intro hid
    obtain ⟨hleft, hart⟩ := hid
    have hmem := hlabels.mem_iff.1 (List.mem_append_left _ hleft)
    refine (List.mem_append.1 hmem).resolve_right fun hkept => ?_
    exact (hreach.wellFormed h.wellFormed).artificials_ne_zero hkept hart hzero

theorem Starts.totalCost_reached (h : s.Starts d) (hcosts : s.costs.length = s.point.length)
    {P : Settings Rat → Prop} (hreach : Dictionary.Reaches P d ids d₁) (x : Int → Rat) :
    (LinearProgram.ofSample s).totalCost x d₁.labels = dot s.costs (d.right.map x) := by
  have hsum : (LinearProgram.ofSample s).totalCost x d.labels
      = (LinearProgram.ofSample s).totalCost x (ids ++ d₁.labels) :=
    (hreach.labels_perm.map _).sum_eq
  rw [← h.totalCost_labels hcosts, hsum, LinearProgram.totalCost_append,
    LinearProgram.totalCost_eq_zero _ fun id hid =>
      LinearProgram.cost_of_isArtificial _ (hreach.isArtificial id hid), zero_add]

/-- **Phase 2 has the values of the program.** -/
theorem Starts.values_installObjective (h : s.Starts d) (hcosts : s.costs.length = s.point.length)
    {P : Settings Rat → Prop} (hP : ∀ s, P s → s.prec = 0)
    (hreach : Dictionary.Reaches P d ids d₁) (hzero : d₁.artificials = 0) :
    ((LinearProgram.ofSample s).installObjective d₁).values = s.values := by
  have hwf := hreach.wellFormed h.wellFormed
  have hrestricts := hreach.restricts hP h.wellFormed
  have hlabels := hreach.labels_perm
  have hids : ∀ id, id ∈ ids ↔ id ∈ d.left ∧ isArtificial id = true := fun id =>
    h.mem_eliminated_iff hreach hzero
  ext z
  constructor
  · rintro ⟨x, hx⟩
    obtain ⟨hrows, hz⟩ := (LinearProgram.solves_installObjective_iff hwf x z).1 hx.solves
    -- a solution of the first dictionary with zeros for what was eliminated
    obtain ⟨y, hy, hgone, hagree⟩ := (hrestricts x _).1 ⟨hrows, rfl⟩
    have hadmits : s.Admits (d.right.map y) := by
      rw [h.admits_iff hy.row]
      refine ⟨fun id hid => ?_, fun id hid hart => hgone id ((hids id).2 ⟨hid, hart⟩)⟩
      rcases List.mem_append.1 (hlabels.mem_iff.1 hid) with hid | hid
      · rw [hgone id hid]
      · rw [hagree id hid]
        exact hx.nonneg id hid
    refine ⟨_, hadmits, ?_⟩
    rw [hz, ← h.totalCost_reached hcosts hreach]
    unfold LinearProgram.totalCost
    congr 1
    apply List.map_congr_left
    intro id hid
    rw [hagree id hid]
  · rintro ⟨v, hv, rfl⟩
    -- the point, completed by its slacks
    set free : Int → Rat := fun id => v.getD (id.toNat - 1) 0
    have hvalues : d.right.map (d.completion free) = v := h.map_completion hv.length
    have hsolves := Dictionary.solves_completion h.wellFormed free
    rw [← hvalues] at hv ⊢
    obtain ⟨hnonneg, hartificial⟩ := (h.admits_iff hsolves.row).1 hv
    have hreached : d₁.Solves (d.completion free) (d.rowValue free 0) :=
      (hrestricts _ _).2 ⟨_, hsolves, fun id hid => hartificial id ((hids id).1 hid).1
        ((hids id).1 hid).2, fun _ _ => rfl⟩
    refine ⟨d.completion free, ?_, fun id hid => ?_, by simp⟩
    · rw [LinearProgram.solves_installObjective_iff hwf]
      exact ⟨hreached.row, (h.totalCost_reached hcosts hreach _).symm⟩
    · exact hnonneg id (hlabels.mem_iff.2 (List.mem_append_right _ hid))

/-! ## §2. The values of a program. -/

/-- **The known point is a point of the program.** -/
theorem Fits.admits_point {shape : Shape Rat} (h : s.Fits shape) : s.Admits s.point where
  length := rfl
  nonneg := h.point_nonneg
  inequalities row hrow :=
    le_add_of_le_of_nonneg (le_max_left _ _) (h.slack_nonneg row hrow)
  equalities _ _ := rfl
  sum_le := by
    have hsum : 0 ≤ s.point.sum := List.sum_nonneg h.point_nonneg
    linarith

theorem dot_le (c v : List Rat) (hv : ∀ t ∈ v, 0 ≤ t) :
    dot c v ≤ (c.map fun t => |t|).sum * v.sum := by
  induction c generalizing v with
  | nil =>
      show (0 : Rat) ≤ _
      rw [List.map_nil, List.sum_nil, zero_mul]
  | cons b c ih =>
      have habs : 0 ≤ (c.map fun t => |t|).sum :=
        List.sum_nonneg (List.forall_mem_map.2 fun t _ => abs_nonneg t)
      cases v with
      | nil =>
          show (0 : Rat) ≤ _
          rw [List.sum_nil, mul_zero]
      | cons t v =>
          obtain ⟨ht, hv⟩ := List.forall_mem_cons.1 hv
          have hsum : 0 ≤ v.sum := List.sum_nonneg hv
          have hhead : b * t ≤ |b| * t := mul_le_mul_of_nonneg_right (le_abs_self b) ht
          have hcross : 0 ≤ |b| * v.sum + (c.map fun t => |t|).sum * t :=
            add_nonneg (mul_nonneg (abs_nonneg b) hsum) (mul_nonneg habs ht)
          have htail := ih v hv
          rw [LinearProgram.dot_cons, List.map_cons, List.sum_cons, List.sum_cons]
          linarith

/-- **The values of a program are bounded**, because the sum of a point
is. -/
theorem values_le (s : Sample Rat) :
    ∀ z ∈ s.values, z ≤ (s.costs.map fun t => |t|).sum * (s.point.sum * 2) := by
  rintro z ⟨v, hv, rfl⟩
  have habs : 0 ≤ (s.costs.map fun t => |t|).sum :=
    List.sum_nonneg (List.forall_mem_map.2 fun t _ => abs_nonneg t)
  exact (dot_le s.costs v hv.nonneg).trans (mul_le_mul_of_nonneg_left hv.sum_le habs)

end Sample

/-! ## §3. Phase 2. -/

theorem Loop.run_settings {γ : Type} [Source γ] (loop : Loop Rat γ) (clock : Nat → Bool)
    (d : Dictionary Rat) : (loop.run clock d).loop.settings = loop.settings := by
  unfold run close
  split
  · rfl
  · dsimp only
    split
    · rfl
    · split
      · rfl
      · rfl

/-- **Phase 2 is an execution**, as far as it ends with an answer, and it
stops only at faults of the loop or for lack of convergence. -/
theorem phaseTwo_spec {γ : Type} [Source γ] {P : Settings Rat → Prop} (seed : Nat) (left : Nat)
    (loop : Loop Rat γ) (hs : P loop.settings) (d : Dictionary Rat) :
    (∀ o, (phaseTwo seed left loop d).result = .ok o → o.status.isResumable = false →
        Execution P d o)
      ∧ ∀ seed', (phaseTwo seed left loop d).result ≠ .error (.failed (.unboundedPhaseOne seed')) := by
  induction left generalizing loop d with
  | zero =>
      constructor
      · intro o h
        cases h
      · intro seed' h
        cases h
  | succ left ih =>
      have hcall : Call loop.settings d loop.source (loop.run (fun _ => false) d)
        (loop.run (fun _ => false) d).loop.source := .run loop rfl rfl _
      unfold phaseTwo
      dsimp only
      split
      next fault hfault =>
        constructor
        · intro o h
          cases h
        · intro seed' h
          cases h
      next outcome houtcome =>
        split
        next hspent =>
          obtain ⟨hrest, hfail⟩ := ih (loop.run (fun _ => false) d).loop
            (by rw [loop.run_settings]; exact hs) (loop.run (fun _ => false) d).dictionary
          refine ⟨fun o h hlast => .resume hs hcall houtcome (by rw [hspent]; rfl) ?_, hfail⟩
          exact hrest o h hlast
        next hother =>
          refine ⟨fun o h hlast => ?_, fun seed' h => by cases h⟩
          cases h
          exact .last hs hcall houtcome hlast

/-! ## §4. Trials. -/

/-- **What the result of a trial says of the program of its sample.**  It
never calls the objective unbounded, in either phase; and an optimum
without artificial variables is the greatest value of the program, so that
it is not below the one that was known. -/
def Sample.Answered (s : Sample Rat) :
    Except (TrialFailure Rat Rat) (TrialResult Rat) → Prop
  | .error failure => ∀ seed, failure ≠ .failed (.unboundedPhaseOne seed)
  | .ok r => r.status ≠ .unbounded
      ∧ (r.status = .optimal → r.infeasible = false →
        IsGreatest s.values r.objective ∧ r.feasibleObjective ≤ r.objective)

/-- Phase 2 answers the program. -/
theorem Sample.Starts.answer {s : Sample Rat} {shape : Shape Rat} (hs : s.Fits shape)
    {d d₁ : Dictionary Rat} {ids : List Int} (h : s.Starts d) (hd : d.Sound)
    (hreach : Dictionary.Reaches Settings.IsSharp d ids d₁) (hzero : d₁.artificials = 0)
    {o : Outcome Rat}
    (ho : Execution Settings.IsSharp ((LinearProgram.ofSample s).installObjective d₁) o) :
    o.status = .optimal ∧ IsGreatest s.values o.objective := by
  have hcosts : s.costs.length = s.point.length := hs.costs_length.trans hs.point_length.symm
  have hpriced := LinearProgram.sound_installObjective (p := LinearProgram.ofSample s)
    (hreach.sound (fun _ hs => hs.isExact.tight) hd)
  have hanswer := ho.answers (Dictionary.validate_rat_iff.2 hpriced.wellFormed) hpriced.feasible
    hzero
  rw [h.values_installObjective hcosts (fun _ hs => hs.prec) hreach hzero] at hanswer
  cases hanswer with
  | optimal hstatus hgreatest => exact ⟨hstatus, hgreatest⟩
  | unbounded _ hall =>
      obtain ⟨z, hz, hlt⟩ := hall _
      exact absurd (s.values_le z hz) (not_le.2 hlt)

/-- **Both phases on the dictionary of a sample.** -/
theorem Trial.solve_answered {shape : Shape Rat} {s : Sample Rat} (hs : s.Fits shape)
    {d : Dictionary Rat} (hd : (LinearProgram.ofSample s).dictionary = .ok d) {γ : Type}
    [Source γ] (loop : Loop Rat γ) (hsharp : loop.settings.IsSharp) (tracing : Tracing)
    (seed : Nat) :
    s.Answered (Trial.solve Rat tracing seed (LinearProgram.ofSample s) loop d).result := by
  have hle : s.equalities.length ≤ s.point.length := by
    rw [hs.equalities_length, hs.point_length]
    exact min_le_right _ _
  have hstarts := Sample.starts_of_dictionary hle hd
  have hf := hstarts.feasible hs.point_nonneg hs.slack_nonneg
  have hphase := hstarts.isPhaseOne fun a ha =>
    (hs.equality_length a ha).trans hs.point_length.symm
  have hsound : d.Sound := ⟨hstarts.wellFormed, hf⟩
  unfold solve join report
  dsimp only
  split
  · intro seed' h
    cases h
  next outcome houtcome =>
    obtain ⟨hreach, hstatus, hartificials, -⟩ :=
      loop.run_reaches (fun _ => false) hstarts.wellFormed houtcome
    have hreach' := hreach.mono (Q := Settings.IsSharp) fun s h =>
      (show s = loop.settings from h) ▸ hsharp
    -- in phase 1 every improving column is bounded
    have hbounded : outcome.status ≠ .unbounded := by
      intro hunbounded
      rw [hunbounded] at hstatus
      obtain ⟨col, hcol⟩ := hstatus
      exact (hreach'.isPhaseOne (fun _ hs => hs.prec) hphase).not_isUnbounded
        (hreach.wellFormed hstarts.wellFormed) hsharp.pivotTol (le_of_eq hsharp.epsObjective.symm)
        col hcol
    rw [if_neg hbounded]
    split
    next hzero =>
      rw [hartificials] at hzero
      obtain ⟨hexecution, hfailure⟩ := phaseTwo_spec (P := Settings.IsSharp) seed maxInvocations
        (loop.run (fun _ => false) d).loop (by rw [loop.run_settings]; exact hsharp)
        ((LinearProgram.ofSample s).installObjective (loop.run (fun _ => false) d).dictionary)
      dsimp only
      cases hsecond : (phaseTwo seed maxInvocations (loop.run (fun _ => false) d).loop
        ((LinearProgram.ofSample s).installObjective
          (loop.run (fun _ => false) d).dictionary)).result with
      | error failure =>
          intro seed' h
          rw [h] at hsecond
          exact hfailure seed' hsecond
      | ok last =>
          have hanswer : last.status.isResumable = false →
              last.status = .optimal ∧ IsGreatest s.values last.objective := fun hlast =>
            hstarts.answer hs hsound hreach' hzero (hexecution last hsecond hlast)
          refine ⟨fun hunbounded => ?_, fun hoptimal _ => ?_⟩
          · have hunbounded' : last.status = .unbounded := hunbounded
            have hoptimal := (hanswer (by rw [hunbounded']; rfl)).1
            rw [hunbounded'] at hoptimal
            cases hoptimal
          · have hoptimal' : last.status = .optimal := hoptimal
            have hgreatest := (hanswer (by rw [hoptimal']; rfl)).2
            exact ⟨hgreatest, hgreatest.2 ⟨s.point, hs.admits_point, rfl⟩⟩
    next hleft =>
      refine ⟨hbounded, fun hoptimal hfeasible => ?_⟩
      have hinfeasible : outcome.isInfeasible = true := by
        unfold Outcome.isInfeasible
        rw [show outcome.status = .optimal from hoptimal]
        simpa using Nat.pos_of_ne_zero hleft
      rw [hinfeasible] at hfeasible
      cases hfeasible

/-- The loop of a trial has the trial's settings, and there is one unless
the settings or the monitor make no sense. -/
theorem Trial.openLoop_spec (config : TrialConfig Rat) (tracing : Tracing) (seed : Nat) :
    (∀ loop, openLoop config tracing seed = .ok loop → loop.settings = config.settings)
      ∧ ∀ e, openLoop config tracing seed = .error e → ∀ seed', e ≠ .unboundedPhaseOne seed' := by
  unfold openLoop Loop.create
  simp only [bind, Except.bind]
  cases config.settings.validate with
  | error cause =>
      constructor
      · intro loop h
        cases h
      · intro e h seed' he
        cases h
        cases he
  | ok _ =>
      simp only [Except.mapError]
      cases config.progress with
      | none =>
          constructor
          · intro loop h
            cases h
            rfl
          · intro e h
            cases h
      | some interval =>
          simp only
          cases monitorEvery interval with
          | error cause =>
              constructor
              · intro loop h
                cases h
              · intro e h seed' he
                cases h
                cases he
          | ok _ =>
              constructor
              · intro loop h
                cases h
                rfl
              · intro e h
                cases h

/-- **A trial answers the program of the sample that it draws**, or fails
before there is anything to solve. -/
theorem Trial.run_answered (config : TrialConfig Rat) (tracing : Tracing) (seed : Nat)
    (hsharp : config.settings.IsSharp) :
    (∃ failure, (Trial.run Rat config tracing seed).result = .error failure
        ∧ ∀ seed', failure ≠ .failed (.unboundedPhaseOne seed'))
      ∨ ∃ s after, Sample.draw config.shape (Generator.ofSeed (UInt64.ofNat seed))
          = .ok (s, after)
        ∧ s.Fits config.shape ∧ s.Answered (Trial.run Rat config tracing seed).result := by
  unfold Trial.run prepare LinearProgram.generate
  simp only [StateT.run]
  cases hdraw : Sample.draw config.shape (Generator.ofSeed (UInt64.ofNat seed)) with
  | error cause => exact .inl ⟨_, rfl, fun seed' h => by cases h⟩
  | ok drawn =>
      obtain ⟨s, after⟩ := drawn
      have hfits := Sample.yields_draw config.shape _ s after hdraw
      simp only
      cases hd : (LinearProgram.ofSample s).dictionary (τ := Rat) with
      | error failure =>
          left
          cases failure with
          | stopped fault => exact ⟨_, rfl, fun seed' h => by cases h⟩
          | refused cause => exact ⟨_, rfl, fun seed' h => by cases h⟩
      | ok d =>
          obtain ⟨hsettings, hfailure⟩ := Trial.openLoop_spec config tracing seed
          simp only
          cases hloop : openLoop config tracing seed with
          | error cause =>
              refine .inl ⟨_, rfl, fun seed' h => ?_⟩
              cases h
              exact hfailure _ hloop seed' rfl
          | ok loop =>
              rw [← hsettings loop hloop] at hsharp
              exact .inr ⟨s, after, rfl, hfits, Trial.solve_answered hfits hd loop hsharp tracing seed⟩

/-- **A TRIAL FINDS THE OPTIMUM OF ITS PROGRAM.**  In exact arithmetic:

  * for every sample that fits a shape and whose program is accepted, both
    phases, with any budget, source and other settings, never find the
    objective unbounded; and an optimum without artificial variables is the
    greatest value of the program, not below the one that was known;
  * a whole trial, from any seed, does this for the sample that it
    draws. -/
theorem Trial.answered :
    (∀ (shape : Shape Rat) (s : Sample Rat), s.Fits shape →
      ∀ d : Dictionary Rat, (LinearProgram.ofSample s).dictionary = .ok d →
      ∀ {γ : Type} [Source γ] (loop : Loop Rat γ), loop.settings.IsSharp →
      ∀ (tracing : Tracing) (seed : Nat),
        s.Answered (Trial.solve Rat tracing seed (LinearProgram.ofSample s) loop d).result)
    ∧ ∀ (config : TrialConfig Rat) (tracing : Tracing) (seed : Nat), config.settings.IsSharp →
      (∀ seed', (Trial.run Rat config tracing seed).result
          ≠ .error (.failed (.unboundedPhaseOne seed')))
        ∧ ∀ r, (Trial.run Rat config tracing seed).result = .ok r →
          ∃ s after, Sample.draw config.shape (Generator.ofSeed (UInt64.ofNat seed))
              = .ok (s, after)
            ∧ s.Fits config.shape ∧ s.Answered (.ok r) := by
  refine ⟨fun shape s hs d hd γ _ loop hl tracing seed =>
    Trial.solve_answered hs hd loop hl tracing seed, fun config tracing seed hl => ?_⟩
  obtain ⟨failure, hfailed, hother⟩ | ⟨s, after, hdraw, hfits, hanswered⟩ :=
    Trial.run_answered config tracing seed hl
  · rw [hfailed]
    refine ⟨fun seed' h => ?_, fun r h => by cases h⟩
    cases h
    exact hother seed' rfl
  · refine ⟨fun seed' h => ?_, fun r h => ?_⟩
    · rw [h] at hanswered
      exact hanswered seed' rfl
    · rw [h] at hanswered
      exact ⟨s, after, hdraw, hfits, hanswered⟩

/-- The program `x₁ ≤ 1`, `x₁ + x₂ = 1`, `x₁ + x₂ ≤ 2` with the costs
`x₁ / 4 + x₂ / 2`, drawn from the middle of the equation. -/
def Sample.segment : Sample Rat where
  point := [1 / 2, 1 / 2]
  costs := [1 / 4, 1 / 2]
  inequalities := [([1, 0], 1 / 2)]
  equalities := [[1, 1]]

/-- The same as a program in its first basis. -/
def LinearProgram.segment : LinearProgram Rat where
  rows := [[-1, 1, 1], [1, -1, 0], [2, -1, -1], [1, -1, -1]]
  left := [3, 4, -1]
  right := [1, 2]
  artificials := 1
  costs := [1 / 4, 1 / 2]
  feasibleObjective := 3 / 8

/-- Its first dictionary. -/
def Dictionary.segment : Dictionary Rat where
  tableau := ⟨⟨-1, [1, 2, 1]⟩, [⟨1, [-1, -1, -1]⟩, ⟨1, [0, -1, -1]⟩], by decide⟩
  left := [3, 4, -1]
  right := [1, 2]
  artificials := 1

theorem LinearProgram.ofSample_segment : ofSample .segment = segment := by
  have hrows : (ofSample .segment).rows = segment.rows := by decide +kernel
  have hleft : (ofSample .segment).left = segment.left := by decide +kernel
  have hright : (ofSample .segment).right = segment.right := by decide +kernel
  have hvalue : (ofSample .segment).feasibleObjective = segment.feasibleObjective := by
    decide +kernel
  show LinearProgram.mk (ofSample .segment).rows (ofSample .segment).left
    (ofSample .segment).right 1 [1 / 4, 1 / 2] (ofSample .segment).feasibleObjective = _
  rw [hrows, hleft, hright, hvalue]
  rfl

/-- Phase 1 ends at one end of the segment, and phase 2 finds the optimum
at the other. -/
theorem Trial.answered_segment :
    (Trial.solve Rat .off 7 (LinearProgram.ofSample .segment) Loop.exact
          Dictionary.segment).result = .ok ⟨7, .optimal, false, 1 / 2, 3 / 8, 1, 1, 2⟩
      ∧ IsGreatest Sample.segment.values (1 / 2)
      ∧ ∀ seed, (Trial.run Rat ⟨⟨2, 1, 1, 1⟩, Settings.exact, none⟩ .off 7).result
          ≠ .error (.failed (.unboundedPhaseOne seed)) := by
  obtain ⟨hsolve, hrun⟩ := Trial.answered
  have hsharp : Loop.exact.settings.IsSharp := ⟨rfl, rfl, rfl⟩
  have hfits : Sample.segment.Fits ⟨2, 1, 1, 1⟩ := by
    constructor <;> decide +kernel
  have hd : (LinearProgram.ofSample .segment).dictionary = .ok Dictionary.segment := by
    rw [LinearProgram.ofSample_segment]
    rfl
  have hresult : (Trial.solve Rat .off 7 (LinearProgram.ofSample .segment) Loop.exact
      Dictionary.segment).result = .ok ⟨7, .optimal, false, 1 / 2, 3 / 8, 1, 1, 2⟩ := by
    rw [LinearProgram.ofSample_segment]
    cbv
  have hanswered := hsolve _ _ hfits _ hd Loop.exact hsharp .off 7
  rw [hresult] at hanswered
  exact ⟨hresult, (hanswered.2 rfl rfl).1, (hrun _ .off 7 hsharp).1⟩

end DenseSimplex
