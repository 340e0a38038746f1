/-
  DenseSimplex.Proofs.Tolerance
  ─────────────────────────────
  **RIGHT-HAND SIDES THAT ARE SLIGHTLY NEGATIVE.**

  The check after a pivot lets right-hand sides down to `-prec` pass.  The
  ratio test counts the negative ones among them as zero, but the pivot
  computes with what they are.  So the check can fail although it passed
  before.  Let row `l` leave, with element `p`, and let `a` be the entries
  of the column and `b` the right-hand sides.  Then row `k` is carried
  below `-prec` in three cases and no others (`Dictionary.Overdrawn`):

      leaving     k = l,  b l < 0             prec · |p| < |b l|
      backwards   k ≠ l,  b l < 0 < a k       (b k + prec) · |p| < a k · |b l|
      evicting    k ≠ l,  a k, b k < 0 < b l  (b k + prec) · |p| < |a k| · b l

  In the first two the step is negative.  In the third an artificial
  variable leaves in place of row `k`, whose reach was measured from zero.
  A step keeps all right-hand sides at or above `-prec` exactly if it
  overdraws none (`Walk.step_overdrawn`), and it does not always
  (`Dictionary.slightlyNegative_negativeRhs`).
-/
import DenseSimplex.Proofs.Feasibility
import DenseSimplex.Proofs.PivotFormula

namespace DenseSimplex

/-- A value is below `-prec` after snapping exactly if it was before. -/
theorem Scalar.snap_lt_neg_iff {prec v : Rat} (hprec : 0 ≤ prec) :
    snap prec v < -prec ↔ v < -prec := by
  rcases snap_cases prec v with ⟨hsmall, hsnap⟩ | ⟨-, hsnap⟩
  · have hv := (abs_le.1 hsmall).1
    rw [hsnap]
    exact iff_of_false (not_lt.2 (neg_nonpos.2 hprec)) (not_lt.2 hv)
  · rw [hsnap]

/-- The row that the check names is below `-prec`. -/
theorem Tableau.lt_of_violation {t : Tableau Rat} {prec v : Rat} {k : Nat}
    (h : t.violation prec = some (k, v)) : ∃ i, k = i + 1 ∧ t.rhs.coeff (i + 1) < -prec := by
  obtain ⟨i, rfl, hentry, hviolated⟩ := exists_of_violation h
  rw [isViolated_rat, decide_eq_true_iff] at hviolated
  refine ⟨i, rfl, ?_⟩
  rw [Column.coeff_succ_of_getElem? hentry]
  exact hviolated

namespace Dictionary

/-! ## §1. Overdrawn rows. -/

/-- **A constraint row is overdrawn by a pivot.**  Column 0 is the
right-hand side. -/
inductive Overdrawn (d : Dictionary Rat) (prec : Rat) (c : Choice Rat) (k : Nat) : Prop where
  | leaving (hk : k = c.row) (hneg : d.tableau.coeff 0 k < 0)
      (h : prec * -c.value < -d.tableau.coeff 0 k)
  | backwards (hk : 0 < k ∧ k ≠ c.row) (hstep : d.tableau.coeff 0 c.row < 0)
      (hentry : 0 < d.tableau.coeff c.col k)
      (h : (d.tableau.coeff 0 k + prec) * -c.value
        < d.tableau.coeff c.col k * -d.tableau.coeff 0 c.row)
  | evicting (hk : 0 < k ∧ k ≠ c.row) (hartificial : c.evictsArtificial = true)
      (hstep : 0 < d.tableau.coeff 0 c.row) (hentry : d.tableau.coeff c.col k < 0)
      (hneg : d.tableau.coeff 0 k < 0)
      (h : (d.tableau.coeff 0 k + prec) * -c.value
        < -d.tableau.coeff c.col k * d.tableau.coeff 0 c.row)

variable {d : Dictionary Rat} {limits : Limits Rat} {c : Choice Rat}

theorem rhs_coeff (d : Dictionary Rat) (k : Nat) :
    d.tableau.coeff 0 k = d.tableau.rhs.coeff k := Tableau.coeff_of_column? rfl k

theorem Place.coeff_col (q : d.Place) (k : Nat) :
    d.tableau.coeff (q.col + 1) k = q.column.coeff k := by
  have hcolumn : d.tableau.column? (q.col + 1) = some q.column := q.column_at
  exact Tableau.coeff_of_column? hcolumn k

/-- **Where a pivot carries a right-hand side below `-prec`**, in terms of
the old entries. -/
theorem Place.eliminate_lt_iff (q : d.Place) (hneg : q.element < 0) {e : Elimination Rat}
    (hprec : 0 ≤ e.prec) (hf : ∀ k, -e.prec ≤ d.tableau.rhs.coeff (k + 1)) (k : Nat) :
    (q.eliminate e d.tableau.rhs).coeff (k + 1) < -e.prec ↔
      if k = q.row then e.prec * -q.element < -d.tableau.rhs.coeff (q.row + 1)
      else (d.tableau.rhs.coeff (k + 1) + e.prec) * -q.element
        < -q.column.coeff (k + 1) * d.tableau.rhs.coeff (q.row + 1) := by
  have hpos : 0 < -q.element := neg_pos.2 hneg
  have hrow : q.row + 1 ≤ d.tableau.rhs.height := q.row_lt
  have hkept : 0 ≤ (d.tableau.rhs.coeff (k + 1) + e.prec) * -q.element :=
    mul_nonneg (neg_le_iff_add_nonneg.1 (hf k)) hpos.le
  unfold eliminate
  rw [Column.coeff_eliminated e _ q.column_height.symm hrow]
  split
  -- a step of length zero changes nothing
  next hzero =>
    rw [hzero, neg_zero, mul_zero]
    refine iff_of_false (not_lt.2 (hf k)) ?_
    split
    · exact not_lt.2 (mul_nonneg hprec hpos.le)
    · exact not_lt.2 hkept
  next =>
    rw [Scalar.snap_lt_neg_iff hprec]
    simp only [Nat.add_right_cancel_iff]
    split
    · rw [neg_div, ← div_neg, div_lt_iff₀ hpos, neg_mul, lt_neg]
    · rw [sub_eq_add_neg, ← div_neg, ← lt_sub_iff_add_lt', div_lt_iff₀ hpos]
      constructor
      · intro h
        linarith
      · intro h
        linarith

/-- **A row that loses too much to a step forwards** is negative already,
and an artificial variable leaves in its place. -/
theorem Place.Chosen.evicts_of_lt {q : d.Place} (h : q.Chosen limits c) (hd : d.WellFormed)
    (htol : limits.pivotTol = 0) (hprec : 0 ≤ limits.prec)
    (hstep : 0 < d.tableau.rhs.coeff (q.row + 1)) {k : Nat} (hentry : q.column.coeff (k + 1) < 0)
    (hlt : (d.tableau.rhs.coeff (k + 1) + limits.prec) * -q.element
      < -q.column.coeff (k + 1) * d.tableau.rhs.coeff (q.row + 1)) :
    c.evictsArtificial = true ∧ d.tableau.rhs.coeff (k + 1) < 0 := by
  have hpos : 0 < -q.element := neg_pos.2 (h.element_neg htol.ge)
  have hentry' : 0 < -q.column.coeff (k + 1) := neg_pos.2 hentry
  have hbounds : q.column.coeff (k + 1) < -limits.pivotTol := by
    rw [htol, neg_zero]
    exact hentry
  have hneg : d.tableau.rhs.coeff (k + 1) < 0 := by
    by_contra hge
    have hle := h.clamped_step_le hd htol.ge hprec hbounds
    rw [Scalar.clamped_rat, Scalar.clamped_rat, max_eq_left hstep.le, max_eq_left (not_lt.1 hge),
      div_le_div_iff₀ hpos hentry'] at hle
    linarith
  refine ⟨?_, hneg⟩
  obtain ⟨b, hb, hratio, rfl⟩ := h.exists_clamped_ratio htol.ge
  obtain ⟨r, hr, -, havail⟩ := q.exists_boundingRow hd (le_of_eq htol.symm) hbounds
  -- row `k` counts as zero, so its ratio is zero
  apply BoundingRow.isArtificial_of_tighter comparable_rat (fun _ _ => trivial) hb hr
  unfold BoundingRow.ratio at hratio ⊢
  rw [hratio, havail, Scalar.clamped_rat, Scalar.clamped_rat, max_eq_left hstep.le,
    max_eq_right hneg.le, zero_div]
  exact not_le.2 (div_pos hstep hpos)

/-- **What overdraws a row.** -/
theorem Place.Chosen.overdrawn_iff {q : d.Place} (h : q.Chosen limits c) (hd : d.WellFormed)
    (htol : limits.pivotTol = 0) (hprec : 0 ≤ limits.prec) {e : Elimination Rat}
    (he : e.prec = limits.prec) (hf : ∀ k, -limits.prec ≤ d.tableau.rhs.coeff (k + 1)) (k : Nat) :
    (q.eliminate e d.tableau.rhs).coeff (k + 1) < -limits.prec ↔
      d.Overdrawn limits.prec c (k + 1) := by
  obtain ⟨hrow, hcol, hvalue⟩ := h.row_col
  have hstep_eq : d.tableau.coeff 0 c.row = d.tableau.rhs.coeff (q.row + 1) := by
    rw [rhs_coeff, hrow]
  have hentry_eq : d.tableau.coeff c.col (k + 1) = q.column.coeff (k + 1) := by
    rw [hcol, q.coeff_col]
  have hneg := h.element_neg htol.ge
  have hpos : 0 < -q.element := neg_pos.2 hneg
  have hroom : 0 ≤ (d.tableau.rhs.coeff (k + 1) + limits.prec) * -q.element :=
    mul_nonneg (neg_le_iff_add_nonneg.1 (hf k)) hpos.le
  have hiff := q.eliminate_lt_iff (e := e) hneg (he.symm ▸ hprec) (he.symm ▸ hf) k
  rw [he] at hiff
  rw [hiff]
  constructor
  · intro hlt
    split at hlt
    next hk =>
      subst hk
      have hless : d.tableau.rhs.coeff (q.row + 1) < 0 :=
        neg_pos.1 ((mul_nonneg hprec hpos.le).trans_lt hlt)
      exact .leaving hrow.symm (by rwa [rhs_coeff]) (by rwa [rhs_coeff, hvalue])
    next hk =>
      have hk' : 0 < k + 1 ∧ k + 1 ≠ c.row := ⟨Nat.succ_pos k, by omega⟩
      have hproduct : 0 < -q.column.coeff (k + 1) * d.tableau.rhs.coeff (q.row + 1) :=
        hroom.trans_lt hlt
      -- the step is positive and the entry negative, or the other way round
      rcases mul_pos_iff.1 hproduct with ⟨hentry, hstep⟩ | ⟨hentry, hstep⟩
      · have hentry := neg_pos.1 hentry
        obtain ⟨hartificial, hless⟩ := h.evicts_of_lt hd htol hprec hstep hentry hlt
        exact .evicting hk' hartificial (by rwa [hstep_eq]) (by rwa [hentry_eq])
          (by rwa [rhs_coeff]) (by rwa [rhs_coeff, hvalue, hentry_eq, hstep_eq])
      · have hentry := neg_neg_iff_pos.1 hentry
        rw [neg_mul_comm] at hlt
        exact .backwards hk' (by rwa [hstep_eq]) (by rwa [hentry_eq])
          (by rwa [rhs_coeff, hvalue, hentry_eq, hstep_eq])
  · intro hover
    cases hover with
    | leaving hk _ h =>
        have hk : k = q.row := by omega
        subst hk
        rw [rhs_coeff, hvalue] at h
        rwa [if_pos rfl]
    | backwards hk _ _ h =>
        rw [rhs_coeff, hvalue, hentry_eq, hstep_eq] at h
        rwa [if_neg (by omega), neg_mul_comm]
    | evicting hk _ _ _ _ h =>
        rw [rhs_coeff, hvalue, hentry_eq, hstep_eq] at h
        rwa [if_neg (by omega)]

/-- The objective row is never overdrawn. -/
theorem Place.Chosen.not_overdrawn_zero {q : d.Place} (h : q.Chosen limits c) (prec : Rat) :
    ¬ d.Overdrawn prec c 0 := by
  intro hover
  cases hover with
  | leaving hk =>
      have hrow := h.row_col.1
      omega
  | backwards hk => exact absurd hk.1 (lt_irrefl 0)
  | evicting hk => exact absurd hk.1 (lt_irrefl 0)

end Dictionary

/-! ## §2. One step. -/

namespace Walk

variable {γ : Type} {s : Settings Rat}

/-- The right-hand sides after a pivot, whatever comes of its checks. -/
theorem rhs_make (htol : 0 ≤ s.pivotTol) (w : Walk Rat γ) (hd : w.dictionary.WellFormed)
    {c : Choice Rat} {q : w.dictionary.Place} (hq : q.Chosen (s.limits Rat) c) :
    (w.make s c).walk.dictionary.tableau.rhs
      = q.eliminate (s.elimination Rat) w.dictionary.tableau.rhs := by
  rw [make_eq s w hd hq, if_neg (hq.good htol)]
  split
  · exact q.rhs_tableau _
  · simp only [corruption_result q hd]
    split <;> exact q.rhs_result _

/-- A pivot stops at the check of the right-hand sides, or because a
counter runs over. -/
theorem result_make (htol : 0 ≤ s.pivotTol) (w : Walk Rat γ) (hd : w.dictionary.WellFormed)
    {c : Choice Rat} {q : w.dictionary.Place} (hq : q.Chosen (s.limits Rat) c) :
    (w.make s c).result =
      match violation s (q.tableau (s.elimination Rat)) with
      | some (k, v) => .error (.negativeRhs k v c.row c.col)
      | none =>
          if w.totalSteps + 1 < UInt64.size then .ok (.pivoted c q.eliminated)
          else .error .counterOverflow := by
  rw [make_eq s w hd hq, if_neg (hq.good htol)]
  cases violation s (q.tableau (s.elimination Rat)) with
  | some p => rfl
  | none =>
      simp only [corruption_result q hd]
      split <;> rfl

/-- **What the check after a pivot says of the rows**, where `Low` holds of
those that the pivot carries below the tolerance: it passes if there is
none, and what it names is one of them. -/
theorem make_check (htol : 0 ≤ s.pivotTol) (hprec : 0 ≤ s.prec) (w : Walk Rat γ)
    (hd : w.dictionary.WellFormed) {c : Choice Rat} {q : w.dictionary.Place}
    (hq : q.Chosen (s.limits Rat) c) {Low : Nat → Prop} (hzero : ¬ Low 0)
    (hlow : ∀ k, (q.eliminate (s.elimination Rat) w.dictionary.tableau.rhs).coeff (k + 1) < -s.prec
      ↔ Low (k + 1)) :
    ((w.make s c).walk.dictionary.tableau.checkFeasible s.prec = none ↔ ∀ k, ¬ Low k)
      ∧ (∀ fault, (w.make s c).result = .error fault → fault = .counterOverflow
          ∨ ∃ k v, fault = .negativeRhs k v c.row c.col ∧ Low k)
      ∧ (s.checkInvariants = true → (∃ k, Low k) →
          ∃ k v, (w.make s c).result = .error (.negativeRhs k v c.row c.col)) := by
  have hcheck : ∀ t : Tableau Rat,
      t.rhs = q.eliminate (s.elimination Rat) w.dictionary.tableau.rhs →
        (t.checkFeasible s.prec = none ↔ ∀ k, ¬ Low k) := by
    intro t ht
    rw [Tableau.checkFeasible_eq_none_iff hprec, ht]
    constructor
    · intro hkept k hk
      cases k with
      | zero => exact hzero hk
      | succ k => exact absurd (hkept k) (not_le.2 ((hlow k).2 hk))
    · intro hnone k
      exact not_lt.1 fun hlt => hnone (k + 1) ((hlow k).1 hlt)
  have hresult := result_make htol w hd hq
  refine ⟨hcheck _ (rhs_make htol w hd hq), fun fault hfault => ?_, fun hon hsome => ?_⟩
  · rw [hresult] at hfault
    split at hfault
    next k v hviolation =>
      cases hfault
      refine .inr ⟨k, v, rfl, ?_⟩
      unfold violation at hviolation
      split at hviolation
      next =>
        obtain ⟨i, rfl, hlt⟩ := Tableau.lt_of_violation hviolation
        exact (hlow i).1 hlt
      next => cases hviolation
    next =>
      split at hfault
      · cases hfault
      · cases hfault
        exact .inl rfl
  · rw [hresult]
    unfold violation
    rw [if_pos hon]
    cases hviolation : (q.tableau (s.elimination Rat)).violation (s.limits Rat).prec with
    | some p => exact ⟨p.1, p.2, rfl⟩
    | none =>
        obtain ⟨k, hk⟩ := hsome
        have hkept := Tableau.violation_eq_none_iff.1 hviolation
        exact absurd hk ((hcheck _ (q.rhs_tableau _)).1 hkept k)

/-- A step makes the pivot that the scan found, at its place. -/
theorem exists_place_of_found [Source γ] (s : Settings Rat) (w : Walk Rat γ)
    (hd : w.dictionary.WellFormed) {c : Choice Rat} {after : γ}
    (hc : Selection.ofDictionary (s.limits Rat) w.dictionary w.source = (.found c, after)) :
    ∃ q : w.dictionary.Place, q.Chosen (s.limits Rat) c
      ∧ w.step s = make s { w with source := after } c := by
  have hexp := Selection.ofDictionary_explained (s.limits Rat) w.dictionary w.source
  rw [hc] at hexp
  obtain ⟨q, hq⟩ := hd.exists_place (hexp.resolve_left (by simp))
  refine ⟨q, hq, ?_⟩
  unfold step
  rw [hc]

/-- **WHERE THE TOLERANCE IS KEPT.**  From a valid dictionary whose
right-hand sides pass the check, with `pivotTol = 0` and any `prec ≥ 0`,
for a pivot that the scan finds with any source of coins:

  * the right-hand sides pass the check again exactly if the pivot
    overdraws no row;
  * the only check at which the step can stop is that of the right-hand
    sides, and the row it names is overdrawn;
  * where the check is made, the step does stop if a row is overdrawn. -/
theorem step_overdrawn [Source γ] (hs : s.Tight) (w : Walk Rat γ)
    (hd : w.dictionary.validate = .ok ())
    (hf : w.dictionary.tableau.checkFeasible s.prec = none) {c : Choice Rat} {after : γ}
    (hc : Selection.ofDictionary (s.limits Rat) w.dictionary w.source = (.found c, after)) :
    ((w.step s).walk.dictionary.tableau.checkFeasible s.prec = none ↔
        ∀ k, ¬ w.dictionary.Overdrawn s.prec c k)
      ∧ (∀ fault, (w.step s).result = .error fault → fault = .counterOverflow
          ∨ ∃ k v, fault = .negativeRhs k v c.row c.col ∧ w.dictionary.Overdrawn s.prec c k)
      ∧ (s.checkInvariants = true → (∃ k, w.dictionary.Overdrawn s.prec c k) →
          ∃ k v, (w.step s).result = .error (.negativeRhs k v c.row c.col)) := by
  have hwf := Dictionary.validate_rat_iff.1 hd
  obtain ⟨q, hq, hstep⟩ := exists_place_of_found s w hwf hc
  have hrhs := (Tableau.checkFeasible_eq_none_iff hs.prec).1 hf
  rw [hstep]
  exact make_check hs.pivotTol.ge hs.prec { w with source := after } hwf hq
    (hq.not_overdrawn_zero s.prec) (hq.overdrawn_iff hwf hs.pivotTol hs.prec rfl hrhs)

end Walk

/-- A row `x₂ = -2⁻⁴⁰ - x₁`, which passes for feasible, and a row
`x₃ = 1000 x₁`. -/
def Dictionary.slightlyNegative : Dictionary Rat where
  tableau := ⟨⟨0, [-(1 / 2 ^ 40), 0]⟩, [⟨1, [-1, 1000]⟩], by decide⟩
  left := [2, 3]
  right := [1]
  artificials := 0

/-- The default settings, with exact numbers. -/
def Settings.rational : Settings Rat := Settings.standard Rat {}

theorem Settings.tight_rational : Settings.rational.Tight := by
  refine ⟨rfl, ?_⟩
  show (0 : Rat) ≤ 1e-12
  norm_num

/-- The degenerate pivot in row 1 moves `x₁` to -2⁻⁴⁰ and overdraws row
2. -/
theorem Walk.step_overdrawn_slightlyNegative :
    Dictionary.slightlyNegative.Overdrawn Settings.rational.prec ⟨1, 1, -1, 0, 0, true, false⟩ 2
      ∧ ((Loop.exact.walk Dictionary.slightlyNegative).step
          Settings.rational).walk.dictionary.tableau.checkFeasible Settings.rational.prec
        ≠ none := by
  have hover : Dictionary.slightlyNegative.Overdrawn Settings.rational.prec
      ⟨1, 1, -1, 0, 0, true, false⟩ 2 := by
    refine .backwards ⟨two_pos, by decide⟩ ?_ ?_ ?_
    · show (-(1 / 2 ^ 40) : Rat) < 0
      norm_num
    · show (0 : Rat) < 1000
      norm_num
    · show ((0 : Rat) + 1e-12) * -(-1) < 1000 * -(-(1 / 2 ^ 40))
      norm_num
  have hfound : Selection.ofDictionary (Settings.rational.limits Rat) Dictionary.slightlyNegative
      (Loop.exact.walk Dictionary.slightlyNegative).source
      = (.found ⟨1, 1, -1, 0, 0, true, false⟩, fun _ => 0) := by cbv
  obtain ⟨hiff, -⟩ := Walk.step_overdrawn Settings.tight_rational
    (Loop.exact.walk Dictionary.slightlyNegative) (by rfl) (by cbv) hfound
  exact ⟨hover, fun hnone => hiff.1 hnone 2 hover⟩

/-- **THE TOLERANCE IS NOT ALWAYS KEPT.**  With the default thresholds the
right-hand side of row 2 falls to `-1000 · 2⁻⁴⁰`, which is 900 times the
tolerance, and the step stops at its check. -/
theorem Dictionary.slightlyNegative_negativeRhs :
    Dictionary.slightlyNegative.validate = .ok ()
      ∧ Settings.rational.Tight
      ∧ Dictionary.slightlyNegative.tableau.checkFeasible Settings.rational.prec = none
      ∧ ((Loop.exact.walk Dictionary.slightlyNegative).step Settings.rational).result
        = .error (.negativeRhs 2 (-1000 / 2 ^ 40) 1 1) :=
  ⟨by rfl, Settings.tight_rational, by cbv, by cbv⟩

-- The other two cases do occur.  Here the leaving row itself is overdrawn;
-- below, an artificial variable leaves from row 2 in place of row 1, which is
-- at `-prec` already.
example :
    let d : Dictionary Rat :=
      { tableau := ⟨⟨0, [-(1 / 2 ^ 40)]⟩, [⟨1, [-(1 / 2)]⟩], by decide⟩
        left := [2], right := [1], artificials := 0 }
    ((Loop.exact.walk d).step Settings.rational).result
      = .error (.negativeRhs 1 (-2 / 2 ^ 40) 1 1) := by cbv

example :
    let d : Dictionary Rat :=
      { tableau := ⟨⟨0, [-1e-12, 1 / 2 ^ 47]⟩, [⟨1, [-1, -1]⟩], by decide⟩
        left := [2, -1], right := [1], artificials := 1 }
    ((Loop.exact.walk d).step Settings.rational).result
      = .error (.negativeRhs 1 (-1e-12 - 1 / 2 ^ 47) 2 1) := by cbv

end DenseSimplex
