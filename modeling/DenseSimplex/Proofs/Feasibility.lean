/-
  DenseSimplex.Proofs.Feasibility
  ───────────────────────────────
  **RIGHT-HAND SIDES STAY NON-NEGATIVE.**

  Over the rationals, with settings for which every negative entry bounds a
  step (`Settings.Tight`), the step of a chosen column is short enough for
  every row:

      ratio of the leaving row  ≤  reach of every bounding row

  (`BoundingRow.leaving_ratio_le_reach`).  For the tightest row this is its
  minimality; for an artificial row that replaces it, it is the bound on
  feasible steps.  So after the pivot every right-hand side is at least
  `-prec`, and what lies between `-prec` and 0 is snapped to zero: the new
  right-hand sides are not negative at all (`Place.Chosen.feasible_result`).

  It follows that the two checks after a pivot always pass.  The only
  faults left are that a counter runs over and that a random budget cannot
  be drawn (`Visits.feasible_without_faults`).
-/
import DenseSimplex.Proofs.LinearSystem

namespace DenseSimplex

/-! ## §1. The ratio test. -/

theorem comparable_rat : Scalar.Comparable (fun _ : Rat => True) where
  refl _ := le_refl _
  trans h h' := h.trans h'
  of_lt h := le_of_lt h
  of_not_lt _ _ h := not_lt.1 h

namespace BoundingRow

theorem magnitude_entry_nonneg (b : BoundingRow Rat) : 0 ≤ Scalar.magnitude b.entry := by
  rw [Scalar.magnitude_rat]
  exact abs_nonneg _

/-- A row reaches `-prec` no earlier than zero. -/
theorem ratio_le_reach {prec : Rat} (hprec : 0 ≤ prec) (b : BoundingRow Rat) :
    b.ratio ≤ b.reach prec := by
  unfold ratio reach
  apply div_le_div_of_nonneg_right _ b.magnitude_entry_nonneg
  linarith

/-- A step respects a lowered bound if it respects the bound and the
value. -/
theorem respects_lower {bound : Option Rat} {value step : Rat} :
    respects (lower bound value) step = true ↔ respects bound step = true ∧ step ≤ value := by
  cases bound with
  | none =>
      unfold lower
      rw [if_pos (le_refl value)]
      simp [respects]
  | some b =>
      by_cases hlt : value < b
      · have hlower : lower (some b) value = some value := if_pos hlt
        rw [hlower]
        simp only [respects, decide_eq_true_eq]
        constructor
        · intro h
          exact ⟨le_of_lt (lt_of_le_of_lt h hlt), h⟩
        · intro h
          exact h.2
      · have hlower : lower (some b) value = some b := if_neg hlt
        rw [hlower]
        simp only [respects, decide_eq_true_eq]
        constructor
        · intro h
          exact ⟨h, h.trans (not_lt.1 hlt)⟩
        · intro h
          exact h.1

/-- **A step respects the bound on feasible steps exactly if it is within
the reach of every row.** -/
theorem respects_feasibleStep_iff {prec step : Rat} {rows : List (BoundingRow Rat)} :
    respects (feasibleStep prec rows) step = true ↔ ∀ b ∈ rows, step ≤ b.reach prec := by
  have hfold : ∀ (rows : List (BoundingRow Rat)) (bound : Option Rat),
      respects (rows.foldl (fun bound b => lower bound (b.reach prec)) bound) step = true ↔
        respects bound step = true ∧ ∀ b ∈ rows, step ≤ b.reach prec := by
    intro rows
    induction rows with
    | nil =>
        intro bound
        simp
    | cons r rows ih =>
        intro bound
        rw [List.foldl_cons, ih, respects_lower, and_assoc, List.forall_mem_cons]
  have hstart : respects none step = true := decide_eq_true (le_refl step)
  unfold feasibleStep
  rw [hfold, and_iff_right hstart]

/-- **The leaving row's ratio is within the reach of every bounding row**,
whether it is the tightest row or an artificial one in its place. -/
theorem leaving_ratio_le_reach {limits : Limits Rat} (hprec : 0 ≤ limits.prec)
    {rows : List (BoundingRow Rat)} {b : BoundingRow Rat} (h : leaving limits rows = some b) :
    ∀ r ∈ rows, b.ratio ≤ r.reach limits.prec := by
  rcases leaving_cases h with hmin | ⟨min, -, -, hreplace⟩
  -- the tightest row is no further than any row, let alone its reach
  · intro r hr
    exact (tightest_ratio_le comparable_rat (fun _ _ => trivial) hmin r hr).trans
      (ratio_le_reach hprec r)
  -- an artificial row in its place was checked against every reach
  · unfold mayReplace at hreplace
    rw [Bool.and_eq_true] at hreplace
    exact respects_feasibleStep_iff.1 hreplace.2

end BoundingRow

/-! ## §2. One pivot. -/

/-- Every negative entry bounds a step, and the tolerance for right-hand
sides is one. -/
structure Settings.Tight (s : Settings Rat) : Prop where
  pivotTol : s.pivotTol = 0
  prec : 0 ≤ s.prec

namespace Dictionary

/-- No right-hand side of a constraint row is negative. -/
def Feasible (d : Dictionary Rat) : Prop := ∀ v ∈ d.tableau.rhs.entries, 0 ≤ v

theorem feasible_iff {d : Dictionary Rat} :
    d.Feasible ↔ ∀ k, 0 ≤ d.tableau.rhs.coeff (k + 1) := Column.forall_le_iff (le_refl 0)

/-- On feasible right-hand sides the clamping of the ratio test does
nothing. -/
theorem Feasible.clamped_coeff {d : Dictionary Rat} (h : d.Feasible) (k : Nat) :
    Scalar.clamped (d.tableau.rhs.coeff (k + 1)) = d.tableau.rhs.coeff (k + 1) := by
  rw [Scalar.clamped_rat, max_eq_left (feasible_iff.1 h k)]

/-- A row with an entry below the tolerance bounds the step. -/
theorem Place.exists_boundingRow {d : Dictionary Rat} (q : d.Place) (hd : d.WellFormed)
    {tol : Rat} (htol : 0 ≤ tol) {k : Nat} (hlt : q.column.coeff (k + 1) < -tol) :
    ∃ b ∈ BoundingRow.ofColumn tol q.column.entries d.tableau.rhs.entries d.left,
      b.entry = q.column.coeff (k + 1)
        ∧ b.available = Scalar.clamped (d.tableau.rhs.coeff (k + 1)) := by
  have hk : k < d.tableau.height := by
    rw [← q.column_height]
    by_contra hge
    rw [Column.coeff_of_height_le (not_lt.1 hge)] at hlt
    linarith
  have hleft : k < d.left.length := by
    rw [hd.left_length]
    exact hk
  have hentry : q.column.entries[k]? = some (q.column.coeff (k + 1)) :=
    Column.getElem?_eq_coeff (by rw [q.column_height]; exact hk)
  obtain ⟨b, hb, -, h⟩ :=
    BoundingRow.exists_mem_ofColumn hentry (Column.getElem?_eq_coeff hk) hleft hlt
  exact ⟨b, hb, h⟩

variable {d : Dictionary Rat} {limits : Limits Rat} {c : Choice Rat}

theorem Place.Chosen.element_neg {q : d.Place} (h : q.Chosen limits c)
    (htol : 0 ≤ limits.pivotTol) : q.element < 0 :=
  h.element_lt.trans_le (neg_nonpos.2 htol)

/-- The step of a chosen place is the ratio of its row, whose right-hand
side counts as zero if it is negative. -/
theorem Place.Chosen.exists_clamped_ratio {q : d.Place} (h : q.Chosen limits c)
    (htol : 0 ≤ limits.pivotTol) :
    ∃ b, leavingRow limits q.column.entries d.tableau.rhs.entries d.left = some b
      ∧ b.ratio = Scalar.clamped (d.tableau.rhs.coeff (q.row + 1)) / -q.element
      ∧ c = Choice.ofLeaving limits (q.col + 1) q.column.objective b := by
  obtain ⟨b, hb, hrow, hentry, -, hc⟩ := h.leaves
  obtain ⟨⟨k, v, hk, -, hv, havail, -⟩, -⟩ :=
    BoundingRow.mem_ofColumn.1 (BoundingRow.leaving_mem hb)
  obtain rfl : k = q.row := by omega
  refine ⟨b, hb, ?_, hc⟩
  unfold BoundingRow.ratio
  rw [havail, ← Column.coeff_succ_of_getElem? hv, hentry, Scalar.magnitude_rat,
    abs_of_neg (h.element_neg htol)]

theorem Place.Chosen.exists_ratio {q : d.Place} (h : q.Chosen limits c) (hf : d.Feasible)
    (htol : limits.pivotTol = 0) :
    ∃ b, leavingRow limits q.column.entries d.tableau.rhs.entries d.left = some b
      ∧ b.ratio = d.tableau.rhs.coeff (q.row + 1) / -q.element := by
  obtain ⟨b, hb, hratio, -⟩ := h.exists_clamped_ratio htol.ge
  rw [hf.clamped_coeff] at hratio
  exact ⟨b, hb, hratio⟩

/-- The step of a chosen place is within the reach of every row that bounds
it. -/
theorem Place.Chosen.clamped_step_le {q : d.Place} (h : q.Chosen limits c) (hd : d.WellFormed)
    (htol : 0 ≤ limits.pivotTol) (hprec : 0 ≤ limits.prec) {k : Nat}
    (hbounds : q.column.coeff (k + 1) < -limits.pivotTol) :
    Scalar.clamped (d.tableau.rhs.coeff (q.row + 1)) / -q.element
      ≤ (Scalar.clamped (d.tableau.rhs.coeff (k + 1)) + limits.prec)
        / -q.column.coeff (k + 1) := by
  have hneg : q.column.coeff (k + 1) < 0 := hbounds.trans_le (neg_nonpos.2 htol)
  obtain ⟨b, hb, hratio, -⟩ := h.exists_clamped_ratio htol
  obtain ⟨r, hr, hentry, havail⟩ := q.exists_boundingRow hd htol hbounds
  have hreach := BoundingRow.leaving_ratio_le_reach hprec hb r hr
  unfold BoundingRow.reach at hreach
  rwa [hratio, havail, hentry, Scalar.magnitude_rat, abs_of_neg hneg] at hreach

theorem Place.Chosen.step_le {q : d.Place} (h : q.Chosen limits c) (hd : d.WellFormed)
    (hf : d.Feasible) (htol : limits.pivotTol = 0) (hprec : 0 ≤ limits.prec) {k : Nat}
    (hneg : q.column.coeff (k + 1) < 0) :
    d.tableau.rhs.coeff (q.row + 1) / -q.element
      ≤ (d.tableau.rhs.coeff (k + 1) + limits.prec) / -q.column.coeff (k + 1) := by
  have hle := h.clamped_step_le hd htol.ge hprec (by rwa [htol, neg_zero])
  rwa [hf.clamped_coeff, hf.clamped_coeff] at hle

/-- **No right-hand side falls below `-prec`**, before snapping. -/
theorem Place.Chosen.neg_prec_le {q : d.Place} (h : q.Chosen limits c) (hd : d.WellFormed)
    (hf : d.Feasible) (htol : limits.pivotTol = 0) (hprec : 0 ≤ limits.prec) (k : Nat) :
    -limits.prec ≤ d.tableau.rhs.coeff (k + 1)
      - q.column.coeff (k + 1) * d.tableau.rhs.coeff (q.row + 1) / q.element := by
  have hown := feasible_iff.1 hf q.row
  have hk := feasible_iff.1 hf k
  have helement := h.element_neg htol.ge
  have hstep : 0 ≤ d.tableau.rhs.coeff (q.row + 1) / -q.element :=
    div_nonneg hown (by linarith)
  have hrewrite : q.column.coeff (k + 1) * d.tableau.rhs.coeff (q.row + 1) / q.element
      = -(q.column.coeff (k + 1) * (d.tableau.rhs.coeff (q.row + 1) / -q.element)) := by
    rw [div_neg, mul_neg, neg_neg, mul_div_assoc]
  rw [hrewrite]
  -- only a row with a negative entry can lose anything
  by_cases hneg : q.column.coeff (k + 1) < 0
  · have hle := h.step_le hd hf htol hprec hneg
    rw [le_div_iff₀ (by linarith)] at hle
    linarith
  · have hprod := mul_nonneg (not_lt.1 hneg) hstep
    linarith

theorem Place.rhs_result (q : d.Place) (e : Elimination Rat) :
    (q.result e).tableau.rhs = q.eliminate e d.tableau.rhs := by
  unfold result
  split <;> rfl

/-- **A pivot at a chosen place keeps a dictionary feasible.** -/
theorem Place.Chosen.feasible_result {q : d.Place} (h : q.Chosen limits c) (hd : d.WellFormed)
    (hf : d.Feasible) (htol : limits.pivotTol = 0) {e : Elimination Rat}
    (he : e.prec = limits.prec) (hprec : 0 ≤ limits.prec) : (q.result e).Feasible := by
  have hown := feasible_iff.1 hf q.row
  have hrow : q.row + 1 ≤ d.tableau.rhs.height := q.row_lt
  rw [feasible_iff]
  intro k
  rw [q.rhs_result]
  unfold eliminate
  rw [Column.coeff_eliminated e _ q.column_height.symm hrow, he]
  split
  -- with a zero in the pivot row the right-hand sides are left alone
  next => exact feasible_iff.1 hf k
  next =>
    apply Scalar.snap_nonneg
    split
    -- the pivot row gets the length of the step
    next =>
      have hratio : 0 ≤ -d.tableau.rhs.coeff (q.row + 1) / q.element :=
        div_nonneg_of_nonpos (by linarith) (le_of_lt (h.element_neg htol.ge))
      linarith
    next => exact h.neg_prec_le hd hf htol hprec k

end Dictionary

/-- What holds of a dictionary before every step: it is well-formed and no
right-hand side is negative. -/
structure Dictionary.Sound (d : Dictionary Rat) : Prop where
  wellFormed : d.WellFormed
  feasible : d.Feasible

/-- **Moves keep a dictionary sound.** -/
theorem Dictionary.Moves.sound {s : Settings Rat} {d d' : Dictionary Rat} {r : StepResult Rat}
    (h : d.Moves s r d') (hs : s.Tight) (hd : d.Sound) : d'.Sound := by
  refine ⟨h.wellFormed hd.wellFormed, ?_⟩
  cases h with
  | optimal => exact hd.feasible
  | unbounded => exact hd.feasible
  | pivoted q hq => exact hq.feasible_result hd.wellFormed hd.feasible hs.pivotTol rfl hs.prec

theorem Dictionary.Reaches.sound {P : Settings Rat → Prop} (hP : ∀ s, P s → s.Tight)
    {d₀ d : Dictionary Rat} {ids : List Int} (h : Reaches P d₀ ids d) (hd : d₀.Sound) :
    d.Sound := by
  induction h with
  | start => exact hd
  | move _ hs hm ih => exact hm.sound (hP _ hs) ih

/-! ## §3. The checks after a pivot. -/

theorem Tableau.isViolated_rat (prec v : Rat) : isViolated prec v = decide (v < -prec) := by
  unfold isViolated Scalar.isNotNumber
  rw [decide_eq_true (le_refl v)]
  exact Bool.or_false _

/-- **What the check of the right-hand sides says.** -/
theorem Tableau.checkFeasible_eq_none_iff {t : Tableau Rat} {prec : Rat} (hprec : 0 ≤ prec) :
    t.checkFeasible prec = none ↔ ∀ k, -prec ≤ t.rhs.coeff (k + 1) := by
  rw [← Column.forall_le_iff (neg_nonpos.2 hprec)]
  unfold checkFeasible
  rw [Option.map_eq_none_iff, List.findIdx?_eq_none_iff]
  simp only [isViolated_rat, decide_eq_false_iff_not, not_lt]

theorem Tableau.violation_eq_none {t : Tableau Rat} (h : ∀ v ∈ t.rhs.entries, 0 ≤ v) {prec : Rat}
    (hprec : 0 ≤ prec) : t.violation prec = none := by
  rw [violation_eq_none_iff, checkFeasible_eq_none_iff hprec]
  intro k
  exact (neg_nonpos.2 hprec).trans ((Column.forall_le_iff (le_refl 0)).1 h k)

theorem Dictionary.Place.Chosen.good {s : Settings Rat} {d : Dictionary Rat} {c : Choice Rat}
    {q : d.Place} (hq : q.Chosen (s.limits Rat) c) (htol : 0 ≤ s.pivotTol) :
    ¬ (q.element == 0 || !Scalar.isFinite q.element) = true := by
  have hne : q.element ≠ 0 := ne_of_lt (hq.element_neg htol)
  show ¬ (q.element == 0 || !true) = true
  simp [hne]

namespace Walk

variable {γ : Type} {s : Settings Rat}

/-- The check of the whole dictionary never fails. -/
theorem corruption_result {d : Dictionary Rat} (q : d.Place) (hd : d.WellFormed)
    (e : Elimination Rat) : corruption s (q.result e) = none := by
  unfold corruption
  rw [Dictionary.validate_rat_iff.2 (q.wellFormed_result hd e)]
  split <;> rfl

/-- **A chosen pivot passes both checks**; only the counter can run over. -/
theorem make_of_sound (hs : s.Tight) (w : Walk Rat γ) (hd : w.dictionary.Sound) {c : Choice Rat}
    {q : w.dictionary.Place} (hq : q.Chosen (s.limits Rat) c) :
    w.make s c =
      let after := q.result (s.elimination Rat)
      let journal := after.eliminationEvents c.col q.eliminated
      if w.totalSteps + 1 < UInt64.size then
        ⟨{ w with dictionary := after, totalSteps := w.totalSteps + 1 }, journal,
          .ok (.pivoted c q.eliminated)⟩
      else ⟨{ w with dictionary := after }, journal, .error .counterOverflow⟩ := by
  have hgood := hq.good hs.pivotTol.ge
  have hresult : (q.result (s.elimination Rat)).Sound :=
    (Dictionary.Moves.pivoted q hq hgood).sound hs hd
  have hviolation : violation s (q.tableau (s.elimination Rat)) = none := by
    have hrhs : ∀ v ∈ (q.tableau (s.elimination Rat)).rhs.entries, 0 ≤ v := by
      rw [q.rhs_tableau, ← q.rhs_result]
      exact hresult.feasible
    unfold violation
    split
    · exact Tableau.violation_eq_none hrhs hs.prec
    · rfl
  rw [make_eq s w hd.wellFormed hq, if_neg hgood, hviolation]
  simp only [corruption_result q hd.wellFormed]

/-- **A step makes at most one move**, also where the counter runs over,
and none of its checks fails. -/
theorem step_sound [Source γ] (hs : s.Tight) (w : Walk Rat γ) (hd : w.dictionary.Sound) :
    (∃ ids, Dictionary.Reaches (· = s) w.dictionary ids (w.step s).walk.dictionary)
      ∧ ∀ fault, (w.step s).result = .error fault → fault = .counterOverflow := by
  obtain ⟨after, ⟨-, hstep⟩ | ⟨col, -, hstep⟩ | ⟨c, q, hq, hstep⟩⟩ :=
    step_cases s w hd.wellFormed
  · rw [hstep]
    exact ⟨⟨_, .start⟩, fun fault h => by cases h⟩
  · rw [hstep]
    exact ⟨⟨_, .start⟩, fun fault h => by cases h⟩
  · have hmove : w.dictionary.Moves s (.pivoted c q.eliminated) (q.result (s.elimination Rat)) :=
      .pivoted q hq (hq.good hs.pivotTol.ge)
    rw [hstep, make_of_sound hs { w with source := after } hd hq]
    -- what is left to decide is whether the counter has room
    dsimp only
    split
    · exact ⟨⟨_, .single rfl hmove⟩, fun fault h => by cases h⟩
    · refine ⟨⟨_, .single rfl hmove⟩, fun fault h => ?_⟩
      cases h
      rfl

end Walk

/-! ## §4. Invocations. -/

namespace Invocation

variable {γ : Type} [Source γ] {terms : Terms Rat}

theorem pass_sound (hs : terms.settings.Tight) {i : Invocation Rat Rat γ}
    (hd : i.walk.dictionary.Sound) :
    (∃ ids, Dictionary.Reaches (· = terms.settings) i.walk.dictionary ids
        (pass terms i).invocation.walk.dictionary)
      ∧ ∀ fault, (pass terms i).verdict = .stopped fault → fault = .counterOverflow := by
  cases hlimit : spentLimit terms i with
  | some limit =>
      unfold pass
      rw [hlimit]
      exact ⟨⟨_, .start⟩, fun fault h => by cases h⟩
  | none =>
      obtain ⟨hwalk, -, hverdict⟩ := pass_step hlimit
      obtain ⟨hreach, hfault⟩ := Walk.step_sound hs i.walk hd
      rw [hwalk, hverdict]
      refine ⟨hreach, fun fault h => ?_⟩
      exact hfault fault (conclude_stopped hd.wellFormed h)

theorem passes_sound (hs : terms.settings.Tight) (room : Nat) {i : Invocation Rat Rat γ}
    (hd : i.walk.dictionary.Sound) :
    (∃ ids, Dictionary.Reaches (· = terms.settings) i.walk.dictionary ids
        (passes terms room i).invocation.walk.dictionary)
      ∧ ∀ fault, (passes terms room i).result = .error fault → fault = .counterOverflow := by
  induction room generalizing i with
  | zero =>
      refine ⟨⟨_, .start⟩, fun fault h => ?_⟩
      cases h
      rfl
  | succ room ih =>
      obtain ⟨⟨ids, hreach⟩, hfault⟩ := pass_sound hs hd
      unfold passes
      generalize pass terms i = passed at hreach hfault ⊢
      obtain ⟨next, journal, verdict⟩ := passed
      cases verdict with
      | stopped cause =>
          refine ⟨⟨ids, hreach⟩, fun fault h => ?_⟩
          cases h
          exact hfault cause rfl
      | done status => exact ⟨⟨ids, hreach⟩, fun fault h => by cases h⟩
      | goOn =>
          have hnext : next.walk.dictionary.Sound :=
            hreach.sound (fun s h => (show s = terms.settings from h) ▸ hs) hd
          obtain ⟨⟨ids', hrest⟩, hfault'⟩ := ih hnext
          exact ⟨⟨ids ++ ids', hreach.trans hrest⟩, hfault'⟩

end Invocation

/-- **An invocation makes moves one after another**, with or without an
outcome. -/
theorem Loop.run_sound {γ : Type} [Source γ] (loop : Loop Rat γ) (hs : loop.settings.Tight)
    (clock : Nat → Bool) {d : Dictionary Rat} (hd : d.Sound) :
    (∃ ids, Dictionary.Reaches (· = loop.settings) d ids (loop.run clock d).dictionary)
      ∧ ∀ fault, (loop.run clock d).result = .error fault →
          fault = .counterOverflow ∨ ∃ cause, fault = .draw cause := by
  unfold run close
  split
  · refine ⟨⟨_, .start⟩, fun fault h => ?_⟩
    cases h
    exact .inl rfl
  · dsimp only
    split
    next cause _ =>
      refine ⟨⟨_, .start⟩, fun fault h => ?_⟩
      cases h
      exact .inr ⟨cause, rfl⟩
    next limit source _ =>
      have hterms : (⟨loop.settings, limit, clock⟩ : Terms Rat).settings.Tight := hs
      have hended := Invocation.passes_sound hterms (UInt64.size - loop.totalSteps)
        (i := ⟨({ loop with invocations := loop.invocations + 1, source := source } :
          Loop Rat γ).walk d, 0, loop.shared⟩) hd
      split
      next fault hfault =>
        refine ⟨hended.1, fun fault' h => ?_⟩
        cases h
        exact .inl (hended.2 fault hfault)
      next status _ => exact ⟨hended.1, fun fault h => by cases h⟩

/-! ## §5. Everything that can be visited. -/

/-- **Steps and invocations one after another, whatever comes of them**:
also a call that stops at a fault leaves a dictionary behind, and so does
every pass of an invocation. -/
inductive Visits {ω τ : Type} [Scalar τ] [Element ω τ] (P : Settings ω → Prop)
    (d₀ : Dictionary τ) : Dictionary τ → Prop where
  | start : Visits P d₀ d₀
  | step {γ : Type} [Source γ] {d : Dictionary τ} (h : Visits P d₀ d) (loop : Loop ω γ)
      (hs : P loop.settings) : Visits P d₀ (loop.step d).2.walk.dictionary
  | pass {γ : Type} [Source γ] {i : Invocation ω τ γ} (h : Visits P d₀ i.walk.dictionary)
      (terms : Terms ω) (hs : P terms.settings) :
      Visits P d₀ (i.pass terms).invocation.walk.dictionary
  | run {γ : Type} [Source γ] {d : Dictionary τ} (h : Visits P d₀ d) (loop : Loop ω γ)
      (hs : P loop.settings) (clock : Nat → Bool) : Visits P d₀ (loop.run clock d).dictionary

/-- **Whatever is visited is reached by moves**: the checks never fail, so
a call stops only between two moves. -/
theorem Visits.reaches {P : Settings Rat → Prop} (hP : ∀ s, P s → s.Tight)
    {d₀ d : Dictionary Rat} (h : Visits P d₀ d) (hd : d₀.Sound) :
    ∃ ids, Dictionary.Reaches P d₀ ids d := by
  have hfixed : ∀ {s : Settings Rat}, P s → ∀ s', s' = s → P s' := fun hs _ h => h ▸ hs
  induction h with
  | start => exact ⟨_, .start⟩
  | step _ loop hs ih =>
      obtain ⟨ids, hbefore⟩ := ih
      obtain ⟨⟨ids', hstep⟩, -⟩ :=
        Walk.step_sound (hP _ hs) (loop.walk _) (hbefore.sound hP hd)
      exact ⟨ids ++ ids', hbefore.trans (hstep.mono (hfixed hs))⟩
  | pass _ terms hs ih =>
      obtain ⟨ids, hbefore⟩ := ih
      obtain ⟨⟨ids', hpass⟩, -⟩ := Invocation.pass_sound (hP _ hs) (hbefore.sound hP hd)
      exact ⟨ids ++ ids', hbefore.trans (hpass.mono (hfixed hs))⟩
  | run _ loop hs clock ih =>
      obtain ⟨ids, hbefore⟩ := ih
      obtain ⟨⟨ids', hrun⟩, -⟩ := loop.run_sound (hP _ hs) clock (hbefore.sound hP hd)
      exact ⟨ids ++ ids', hbefore.trans (hrun.mono (hfixed hs))⟩

theorem Visits.sound {d₀ d : Dictionary Rat} (h : Visits Settings.Tight d₀ d) (hd : d₀.Sound) :
    d.Sound := by
  obtain ⟨ids, hreach⟩ := h.reaches (fun _ hs => hs) hd
  exact hreach.sound (fun _ hs => hs) hd

/-- **FEASIBILITY IS NEVER LOST, AND NO CHECK EVER FAILS.**  From a valid
dictionary without negative right-hand sides, whatever steps and
invocations are made with `pivotTol = 0` and `prec ≥ 0`: no right-hand side
is negative in any dictionary on the way, and no call stops at one of its
own checks. -/
theorem Visits.feasible_without_faults {d₀ d : Dictionary Rat} (hd : d₀.validate = .ok ())
    (hf : d₀.Feasible) (h : Visits Settings.Tight d₀ d) :
    d.Feasible ∧ ∀ {γ : Type} [Source γ] (loop : Loop Rat γ), loop.settings.Tight →
      (∀ fault, (loop.step d).2.result = .error fault → fault = .counterOverflow)
        ∧ ∀ clock fault, (loop.run clock d).result = .error fault →
            fault = .counterOverflow ∨ ∃ cause, fault = .draw cause := by
  have hsound := h.sound ⟨Dictionary.validate_rat_iff.1 hd, hf⟩
  refine ⟨hsound.feasible, fun loop hs => ⟨?_, fun clock => ?_⟩⟩
  · exact (Walk.step_sound hs (loop.walk d) hsound).2
  · exact (loop.run_sound hs clock hsound).2

/-- A coarse tolerance: values of magnitude at most 1/2 are snapped. -/
def Settings.coarse : Settings Rat := { Settings.exact with prec := 1 / 2, ratioTieTol := 1 }

/-- A row `x₃ = 1 - x₁` that is tighter than the equation `x₁ + x₂ = 3/2`,
but not by much. -/
def Dictionary.nearTie : Dictionary Rat where
  tableau := ⟨⟨-(3 / 2), [3 / 2, 1]⟩, [⟨1, [-1, -1]⟩, ⟨1, [-1, 0]⟩], by decide⟩
  left := [-1, 3]
  right := [1, 2]
  artificials := 1

/-- The artificial variable leaves in place of the tighter slack, whose
value then falls to -1/2 and is snapped to zero. -/
theorem Visits.feasible_without_faults_nearTie :
    ({ Loop.exact with settings := .coarse }.step Dictionary.nearTie).2.walk.dictionary.tableau.rhs
        = ⟨0, [3 / 2, 0]⟩
      ∧ ({ Loop.exact with settings := .coarse }.step
          Dictionary.nearTie).2.walk.dictionary.Feasible := by
  have hs : Settings.coarse.Tight := by
    refine ⟨rfl, ?_⟩
    show (0 : Rat) ≤ 1 / 2
    norm_num
  have hf : Dictionary.nearTie.Feasible := by
    show ∀ v ∈ [(3 / 2 : Rat), 1], 0 ≤ v
    norm_num
  refine ⟨by cbv, ?_⟩
  exact (Visits.feasible_without_faults (by rfl) hf
    (.step .start { Loop.exact with settings := .coarse } hs)).1

end DenseSimplex
