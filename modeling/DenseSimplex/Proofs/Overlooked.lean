/-
  DenseSimplex.Proofs.Overlooked
  ──────────────────────────────
  **ENTRIES THAT THE RATIO TEST OVERLOOKS.**

  With a tolerance `pivotTol > 0`, an entry between `-pivotTol` and zero
  bounds no step, neither in the choice of the tightest row nor in the
  bound on feasible steps.  The pivot multiplies it by the length of the
  step all the same.  Let row `l` leave, with element `p`, and let `a` be
  the entries of the column and `b` the right-hand sides, none of them
  negative.  Then row `k` is carried below `-prec` exactly if

      -pivotTol  ≤  a k  <  0      and      (b k + prec) · |p|  <  |a k| · b l

  (`Dictionary.Overlooked`).  A step keeps all right-hand sides at or above
  `-prec` exactly if it overlooks no row (`Walk.step_overlooked`).  It
  overlooks none if `pivotTol · ratio ≤ prec`; but a ratio can be of any
  size, so no tolerance makes sure of that
  (`Dictionary.shallow_negativeRhs`).
-/
import DenseSimplex.Proofs.Tolerance

namespace DenseSimplex

theorem Settings.threshold_nonneg {s : Settings Rat} (h : s.validate = .ok ())
    (which : Threshold) : 0 ≤ s.threshold which := by
  have hsound : (true && !decide (s.threshold which < 0)) = true := isSound_of_validate h which
  simpa using hsound

namespace Dictionary

/-! ## §1. Overlooked rows. -/

/-- **A constraint row is overlooked by a pivot**: its entry is negative
but not below the tolerance, and the step is too long for it.  Column 0 is
the right-hand side. -/
structure Overlooked (d : Dictionary Rat) (limits : Limits Rat) (c : Choice Rat) (k : Nat) :
    Prop where
  row : 0 < k
  shallow : -limits.pivotTol ≤ d.tableau.coeff c.col k
  negative : d.tableau.coeff c.col k < 0
  overrun : (d.tableau.coeff 0 k + limits.prec) * -c.value
    < -d.tableau.coeff c.col k * d.tableau.coeff 0 c.row

variable {d : Dictionary Rat} {limits : Limits Rat} {c : Choice Rat}

/-- **A pivot carries below `-prec` the rows that it overlooks, and no
others.** -/
theorem Place.Chosen.overlooked_iff {q : d.Place} (h : q.Chosen limits c) (hd : d.WellFormed)
    (hf : d.Feasible) (htol : 0 ≤ limits.pivotTol) (hprec : 0 ≤ limits.prec)
    {e : Elimination Rat} (he : e.prec = limits.prec) (k : Nat) :
    (q.eliminate e d.tableau.rhs).coeff (k + 1) < -limits.prec ↔
      d.Overlooked limits c (k + 1) := by
  obtain ⟨hrow, hcol, hvalue⟩ := h.row_col
  have hown := feasible_iff.1 hf q.row
  have hk := feasible_iff.1 hf k
  have hneg : q.element < 0 := h.element_neg htol
  have hpos : 0 < -q.element := neg_pos.2 hneg
  have hroom : 0 ≤ (d.tableau.rhs.coeff (k + 1) + limits.prec) * -q.element :=
    mul_nonneg (add_nonneg hk hprec) hpos.le
  have hrhs : ∀ i, -e.prec ≤ d.tableau.rhs.coeff (i + 1) := by
    intro i
    rw [he]
    exact (neg_nonpos.2 hprec).trans (feasible_iff.1 hf i)
  have hlow := q.eliminate_lt_iff (e := e) hneg (he.symm ▸ hprec) hrhs k
  rw [he] at hlow
  rw [hlow]
  constructor
  · intro hlt
    split at hlt
    -- the pivot row gets the length of the step, which is not negative
    next =>
      have hprod := mul_nonneg hprec hpos.le
      linarith
    next hother =>
      have hentry : q.column.coeff (k + 1) < 0 := by
        by_contra hge
        have hprod := mul_nonneg (not_lt.1 hge) hown
        linarith
      refine ⟨Nat.succ_pos k, ?_, ?_, ?_⟩
      · show -limits.pivotTol ≤ d.tableau.coeff c.col (k + 1)
        rw [hcol, q.coeff_col]
        by_contra hbounds
        have hle := h.clamped_step_le hd htol hprec (not_le.1 hbounds)
        rw [hf.clamped_coeff, hf.clamped_coeff,
          div_le_div_iff₀ hpos (neg_pos.2 hentry)] at hle
        linarith
      · show d.tableau.coeff c.col (k + 1) < 0
        rwa [hcol, q.coeff_col]
      · show (d.tableau.coeff 0 (k + 1) + limits.prec) * -c.value
          < -d.tableau.coeff c.col (k + 1) * d.tableau.coeff 0 c.row
        rwa [hcol, q.coeff_col, hvalue, hrow, rhs_coeff, rhs_coeff]
  · intro hover
    have hshallow : -limits.pivotTol ≤ q.column.coeff (k + 1) := by
      rw [← q.coeff_col, ← hcol]
      exact hover.shallow
    -- the entry of the pivot row is below the tolerance
    have hother : k ≠ q.row := by
      rintro rfl
      have hbelow := h.element_lt
      rw [q.coeff_column] at hshallow
      linarith
    have hoverrun := hover.overrun
    rw [hcol, q.coeff_col, hvalue, hrow, rhs_coeff, rhs_coeff] at hoverrun
    rwa [if_neg hother]

/-- A step that is short enough for the tolerance overlooks no row. -/
theorem Place.Chosen.not_overlooked {q : d.Place} (h : q.Chosen limits c) (hf : d.Feasible)
    (htol : 0 ≤ limits.pivotTol) (hshort : limits.pivotTol * c.ratio ≤ limits.prec) (k : Nat) :
    ¬ d.Overlooked limits c k := by
  intro hover
  obtain ⟨hrow, hcol, hvalue⟩ := h.row_col
  obtain ⟨b, -, hratio, rfl⟩ := h.exists_clamped_ratio htol
  have hpos : 0 < -q.element := neg_pos.2 (h.element_neg htol)
  have hown := feasible_iff.1 hf q.row
  obtain ⟨i, rfl⟩ := Nat.exists_eq_add_one.2 hover.row
  have hk := feasible_iff.1 hf i
  have hshallow := hover.shallow
  have hoverrun := hover.overrun
  rw [hvalue, hrow, rhs_coeff, rhs_coeff] at hoverrun
  -- what the row can lose is the tolerance times the step
  have hloss : limits.pivotTol * d.tableau.rhs.coeff (q.row + 1) ≤ limits.prec * -q.element := by
    rw [← div_le_iff₀ hpos, mul_div_assoc, ← hf.clamped_coeff q.row, ← hratio]
    exact hshort
  have hentry := mul_le_mul_of_nonneg_right (neg_le.1 hshallow) hown
  have hslack := mul_nonneg hk hpos.le
  linarith

end Dictionary

/-! ## §2. One step. -/

/-- **WHERE A TOLERANCE IS SAFE.**  From a valid dictionary without negative
right-hand sides, with any valid settings, for a pivot that the scan finds
with any source of coins:

  * the right-hand sides pass the check afterwards exactly if the pivot
    overlooks no row;
  * the only check at which the step can stop is that of the right-hand
    sides, and the row it names is overlooked;
  * where the check is made, the step does stop if a row is overlooked;
  * no row is, if the tolerance times the step is at most `prec`. -/
theorem Walk.step_overlooked {γ : Type} [Source γ] {s : Settings Rat} (hs : s.validate = .ok ())
    (w : Walk Rat γ) (hd : w.dictionary.validate = .ok ()) (hf : w.dictionary.Feasible)
    {c : Choice Rat} {after : γ}
    (hc : Selection.ofDictionary (s.limits Rat) w.dictionary w.source = (.found c, after)) :
    ((w.step s).walk.dictionary.tableau.checkFeasible s.prec = none ↔
        ∀ k, ¬ w.dictionary.Overlooked (s.limits Rat) c k)
      ∧ (∀ fault, (w.step s).result = .error fault → fault = .counterOverflow
          ∨ ∃ k v, fault = .negativeRhs k v c.row c.col
            ∧ w.dictionary.Overlooked (s.limits Rat) c k)
      ∧ (s.checkInvariants = true → (∃ k, w.dictionary.Overlooked (s.limits Rat) c k) →
          ∃ k v, (w.step s).result = .error (.negativeRhs k v c.row c.col))
      ∧ (s.pivotTol * c.ratio ≤ s.prec →
          ∀ k, ¬ w.dictionary.Overlooked (s.limits Rat) c k) := by
  have htol : 0 ≤ s.pivotTol := s.threshold_nonneg hs .pivotTol
  have hprec : 0 ≤ s.prec := s.threshold_nonneg hs .prec
  have hwf := Dictionary.validate_rat_iff.1 hd
  obtain ⟨q, hq, hstep⟩ := exists_place_of_found s w hwf hc
  have hnotZero : ¬ w.dictionary.Overlooked (s.limits Rat) c 0 := by
    intro hover
    exact absurd hover.row (lt_irrefl 0)
  obtain ⟨hcheck, hfault, hstops⟩ := make_check htol hprec { w with source := after } hwf hq
    hnotZero (hq.overlooked_iff hwf hf htol hprec rfl)
  rw [hstep]
  exact ⟨hcheck, hfault, hstops, hq.not_overlooked hf htol⟩

/-- The default settings with exact numbers, and a tolerance of 1/2. -/
def Settings.tolerant : Settings Rat := { Settings.rational with pivotTol := 1 / 2 }

/-- A row `x₂ = 4 - x₁` and a shallow one, `x₃ = -x₁ / 4`. -/
def Dictionary.shallow : Dictionary Rat where
  tableau := ⟨⟨0, [4, 0]⟩, [⟨1, [-1, -(1 / 4)]⟩], by decide⟩
  left := [2, 3]
  right := [1]
  artificials := 0

/-- Only row 1 bounds `x₁`, which grows to 4 and overlooks row 2. -/
theorem Walk.step_overlooked_shallow :
    Dictionary.shallow.Overlooked (Settings.tolerant.limits Rat) ⟨1, 1, -1, 4, 4, false, false⟩ 2
      ∧ ((Loop.exact.walk Dictionary.shallow).step
          Settings.tolerant).walk.dictionary.tableau.checkFeasible Settings.tolerant.prec
        ≠ none := by
  have hover : Dictionary.shallow.Overlooked (Settings.tolerant.limits Rat)
      ⟨1, 1, -1, 4, 4, false, false⟩ 2 := by
    refine ⟨two_pos, ?_, ?_, ?_⟩
    · show -(1 / 2 : Rat) ≤ -(1 / 4)
      norm_num
    · show -(1 / 4 : Rat) < 0
      norm_num
    · show ((0 : Rat) + 1e-12) * -(-1) < -(-(1 / 4)) * 4
      norm_num
  have hf : Dictionary.shallow.Feasible := by
    show ∀ v ∈ [(4 : Rat), 0], 0 ≤ v
    norm_num
  have hfound : Selection.ofDictionary (Settings.tolerant.limits Rat) Dictionary.shallow
      (Loop.exact.walk Dictionary.shallow).source
      = (.found ⟨1, 1, -1, 4, 4, false, false⟩, fun _ => 0) := by cbv
  obtain ⟨hiff, -⟩ := Walk.step_overlooked (s := Settings.tolerant) (by cbv)
    (Loop.exact.walk Dictionary.shallow) (by rfl) hf hfound
  exact ⟨hover, fun hnone => hiff.1 hnone 2 hover⟩

/-- **NOT EVERY VALID TOLERANCE IS SAFE.**  With a tolerance of 1/2 the
right-hand side of row 2 falls to -1, and the step stops at its check. -/
theorem Dictionary.shallow_negativeRhs :
    Settings.tolerant.validate = .ok () ∧ 0 < Settings.tolerant.pivotTol
      ∧ Dictionary.shallow.validate = .ok () ∧ Dictionary.shallow.Feasible
      ∧ ((Loop.exact.walk Dictionary.shallow).step Settings.tolerant).result
        = .error (.negativeRhs 2 (-1) 1 1) := by
  have htol : 0 < Settings.tolerant.pivotTol := by
    show (0 : Rat) < 1 / 2
    norm_num
  have hf : Dictionary.shallow.Feasible := by
    show ∀ v ∈ [(4 : Rat), 0], 0 ≤ v
    norm_num
  exact ⟨by cbv, htol, by rfl, hf, by cbv⟩

end DenseSimplex
