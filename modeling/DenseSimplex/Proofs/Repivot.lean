/-
  DenseSimplex.Proofs.Repivot
  ───────────────────────────
  **PIVOTING TWICE AT ONE PLACE.**

  The second pivot exchanges the two variables back.  Its element is the
  reciprocal of the first one, and on an entry the two formulas cancel:

      a  ↦  a - c · f / p  ↦  (a - c · f / p) + (c / p) · f  =  a,

  so without snapping every tableau is restored (`Tableau.repivot_exact`).

  With snapping, what the first pivot took away is not given back, but
  multiplied by the second one:

      a - c · f / p   snapped     costs up to  prec,  and once more if the
                                  sum is snapped as well
      c / p           snapped     costs up to  prec · |f|
      f / p           snapped     leaves the column as it is, which costs
                                  up to  prec · (1 + |c|),  and  prec · |p|
                                  in the pivot row

  A tableau is restored up to `prec · (1 + max 1 scale)`, where no entry of
  the pivot row and of the pivot column is larger than `scale`
  (`Tableau.repivot_within`), which is attained, and `prec` alone is not
  enough (`Tableau.lossy_vanishing_repivotGap`).
-/
import DenseSimplex.Proofs.PivotFormula

namespace DenseSimplex

/-! ## §1. One entry. -/

/-- **An entry that is not in the pivot row or the pivot column**, after both
pivots: which of its two terms the first pivot snapped decides how far it
is from what it was. -/
theorem Scalar.abs_restored_sub_le {prec a c f p : Rat} (hprec : 0 ≤ prec) (ha : snap prec a = a) :
    |snap prec (snap prec (a - c * f / p) + snap prec (c / p) * f) - a|
      ≤ prec * (1 + max 1 |f|) := by
  have hone : prec * 1 ≤ prec * max 1 |f| := mul_le_mul_of_nonneg_left (le_max_left _ _) hprec
  have hf : prec * |f| ≤ prec * max 1 |f| := mul_le_mul_of_nonneg_left (le_max_right _ _) hprec
  have hcf : c * f / p = c / p * f := by ring
  rw [mul_add]
  rcases snap_cases prec (a - c * f / p) with ⟨hx, hx'⟩ | ⟨hx, hx'⟩
  · rcases snap_cases prec (c / p) with ⟨hy, hy'⟩ | ⟨hy, hy'⟩
    -- both terms are lost, and `a` was not larger than what they make up
    · rw [hx', hy', zero_mul, add_zero, snap_zero, zero_sub, abs_neg]
      have hproduct : |c / p * f| ≤ prec * |f| := by
        rw [abs_mul]
        exact mul_le_mul_of_nonneg_right hy (abs_nonneg f)
      calc |a| = |(a - c * f / p) + c / p * f| := by rw [hcf, sub_add_cancel]
        _ ≤ |a - c * f / p| + |c / p * f| := abs_add_le _ _
        _ ≤ prec * 1 + prec * max 1 |f| := by linarith
    -- the difference is lost, and the product may be snapped as well
    · rw [hx', hy', zero_add]
      have hdifference : |c / p * f - a| ≤ prec := by
        rw [abs_sub_comm, ← hcf]
        exact hx
      calc |snap prec (c / p * f) - a|
          ≤ |snap prec (c / p * f) - c / p * f| + |c / p * f - a| := abs_sub_le _ _ _
        _ ≤ prec * 1 + prec * max 1 |f| := by
            have hsnap := abs_snap_sub_le hprec (c / p * f)
            linarith
  · rcases snap_cases prec (c / p) with ⟨hy, hy'⟩ | ⟨hy, hy'⟩
    -- the quotient is lost, and with it what the second pivot adds
    · rw [hx', hy', zero_mul, add_zero, hx']
      have hsub : a - c * f / p - a = -(c / p * f) := by
        rw [hcf]
        ring
      rw [hsub, abs_neg, abs_mul]
      have hproduct := mul_le_mul_of_nonneg_right hy (abs_nonneg f)
      linarith
    -- nothing is lost
    · rw [hx', hy', hcf, sub_add_cancel, ha, sub_self, abs_zero]
      linarith

namespace Tableau

variable {t t' t'' : Tableau Rat} {row col : Nat}

/-! ## §2. The place after a pivot. -/

/-- The element of a place after a pivot there. -/
theorem IsPivot.element {prec : Rat} (h : IsPivot prec row col t t') :
    t'.coeff col row = Scalar.snap prec (1 / t.coeff col row) := by
  rw [h.entry col row (.inl rfl), pivotEntry_element]

/-- **A place can be pivoted again** if the reciprocal of its element was
not snapped. -/
theorem Pivotable.again {prec : Rat} (h : t.Pivotable row col) (hpivot : IsPivot prec row col t t')
    (hrecip : prec < |1 / t.coeff col row|) :
    t'.Pivotable row col ∧ t'.coeff col row = 1 / t.coeff col row := by
  have helement : t'.coeff col row = 1 / t.coeff col row := by
    rw [hpivot.element, Scalar.snap_rat, if_neg (not_le.2 hrecip)]
  refine ⟨⟨h.row_pos, ?_, h.col_pos, ?_, ?_⟩, helement⟩
  · rw [hpivot.rows]
    exact h.row_lt
  · rw [hpivot.cols]
    exact h.col_lt
  · rw [helement]
    exact one_div_ne_zero h.element

/-! ## §3. Without snapping. -/

/-- **The formula is its own inverse.** -/
theorem pivotEntry_of_exact (hp : t.coeff col row ≠ 0)
    (h : ∀ j k, t'.coeff j k = t.pivotEntry row col j k) (j k : Nat) :
    t'.pivotEntry row col j k = t.coeff j k := by
  have helement : t'.coeff col row = 1 / t.coeff col row := by rw [h, pivotEntry_element]
  by_cases hj : j = col
  · subst hj
    by_cases hk : k = row
    · rw [hk, pivotEntry_element, helement, one_div_one_div]
    · rw [pivotEntry_column _ _ _ hk, helement, h, pivotEntry_column _ _ _ hk]
      field_simp
  · by_cases hk : k = row
    · rw [hk, pivotEntry_row _ _ _ hj, helement, h, pivotEntry_row _ _ _ hj]
      field_simp
    · rw [pivotEntry_other _ _ _ hj hk, helement, h, h, h, pivotEntry_other _ _ _ hj hk,
        pivotEntry_column _ _ _ hk, pivotEntry_row _ _ _ hj]
      field_simp
      ring

/-- **PIVOTING TWICE AT ONE PLACE RESTORES EVERY TABLEAU**, over the
rationals without snapping: the second pivot returns the reciprocal and the
tableau of before, whether products are fused in either of them or not. -/
theorem repivot_exact (t : Tableau Rat) (row col : Nat) (h : t.Pivotable row col)
    (fused fused' : Bool) :
    ∃ t', t.pivot ⟨0, fused⟩ row col = .ok (t.coeff col row, t')
      ∧ t'.pivot ⟨0, fused'⟩ row col = .ok (1 / t.coeff col row, t) := by
  obtain ⟨t', hfirst, hformula⟩ := h.exists_pivot ⟨0, fused⟩
  have hrecip : 0 < |1 / t.coeff col row| := abs_pos.2 (one_div_ne_zero h.element)
  obtain ⟨hagain, helement⟩ := h.again hformula hrecip
  obtain ⟨t'', hsecond, hformula'⟩ := hagain.exists_pivot ⟨0, fused'⟩
  rw [helement] at hsecond
  have hsame : t'' = t := by
    apply ext_coeff
    · rw [hformula'.rows, hformula.rows]
    · rw [hformula'.cols, hformula.cols]
    · intro j k
      rw [hformula'.coeff_exact, pivotEntry_of_exact h.element hformula.coeff_exact]
  exact ⟨t', hfirst, hsame ▸ hsecond⟩

/-- The objective `8 + x₁/2` over the row `16 + 2 x₁`. -/
def lossy : Tableau Rat := ⟨⟨8, [16]⟩, [⟨1/2, [2]⟩], by decide⟩

/-- A fused pivot and a plain one. -/
theorem repivot_exact_lossy :
    ∃ t', lossy.pivot ⟨0, true⟩ 1 1 = .ok (2, t') ∧ t'.pivot ⟨0, false⟩ 1 1 = .ok (1/2, lossy) := by
  have hplace : lossy.Pivotable 1 1 := by decide +kernel
  exact repivot_exact lossy 1 1 hplace true false

/-! ## §4. With snapping. -/

/-- No entry of a tableau is as small as `prec`, except for zeros. -/
def ClearOf (prec : Rat) (t : Tableau Rat) : Prop := ∀ v ∈ t.toColumnMajor, v ≠ 0 → prec < |v|

instance (prec : Rat) (t : Tableau Rat) : Decidable (t.ClearOf prec) :=
  inferInstanceAs (Decidable (∀ v ∈ t.toColumnMajor, v ≠ 0 → prec < |v|))

theorem ClearOf.snap_coeff {prec : Rat} (h : t.ClearOf prec) (j k : Nat) :
    Scalar.snap prec (t.coeff j k) = t.coeff j k := by
  rw [Scalar.snap_rat]
  split
  next hsmall =>
    by_contra hne
    have hclear := h _ (coeff_mem (Ne.symm hne)) (Ne.symm hne)
    exact absurd hsmall (not_le.2 hclear)
  next => rfl

/-- **Where the first pivot snaps nothing, the second one restores every
entry.** -/
theorem IsPivot.eq_of_exact {prec : Rat} (h : t.Pivotable row col) (hclear : t.ClearOf prec)
    (hfirst : IsPivot 0 row col t t') (hsecond : IsPivot prec row col t' t'') : t'' = t := by
  apply ext_coeff
  · rw [hsecond.rows, hfirst.rows]
  · rw [hsecond.cols, hfirst.cols]
  · intro j k
    rw [hsecond.coeff_eq, pivotEntry_of_exact h.element hfirst.coeff_exact, hclear.snap_coeff,
      ite_self]

/-! ## §5. How far a tableau is from what it was. -/

/-- **Two pivots at one place**, the second one on the reciprocal. -/
structure Twice (prec : Rat) (row col : Nat) (t t' t'' : Tableau Rat) : Prop where
  place : t.Pivotable row col
  first : IsPivot prec row col t t'
  element : t'.coeff col row = 1 / t.coeff col row
  second : IsPivot prec row col t' t''

/-- No entry of the pivot row or of the pivot column is larger than a
scale. -/
structure Within (t : Tableau Rat) (row col : Nat) (scale : Rat) : Prop where
  row : ∀ j, |t.coeff j row| ≤ scale
  col : ∀ k, |t.coeff col k| ≤ scale

theorem within_of_mem {scale : Rat} (hscale : 0 ≤ scale) (h : ∀ v ∈ t.toColumnMajor, |v| ≤ scale) :
    t.Within row col scale := by
  have hentry : ∀ j k, |t.coeff j k| ≤ scale := by
    intro j k
    by_cases hzero : t.coeff j k = 0
    · rw [hzero, abs_zero]
      exact hscale
    · exact h _ (coeff_mem hzero)
  exact ⟨fun j => hentry j row, fun k => hentry col k⟩

/-- A multiple of the element that was lost. -/
theorem abs_le_of_abs_div_le {prec scale v p : Rat} (hp : p ≠ 0) (hscale : |p| ≤ scale)
    (h : |v / p| ≤ prec) : |v| ≤ prec * scale := by
  calc |v| = |v / p| * |p| := by rw [← abs_mul, div_mul_cancel₀ v hp]
    _ ≤ prec * |p| := mul_le_mul_of_nonneg_right h (abs_nonneg p)
    _ ≤ prec * scale := mul_le_mul_of_nonneg_left hscale ((abs_nonneg _).trans h)

namespace Twice

variable {prec scale : Rat} (h : Twice prec row col t t' t'') (hprec : 0 ≤ prec)
  (hscale : t.Within row col scale) (hclear : t.ClearOf prec)

include h hprec hscale

/-- A column whose entry in the pivot row is lost stays as the first pivot
left it. -/
theorem abs_lost_sub_le {j : Nat} (hj : j ≠ col) (hown : t.coeff j row ≠ 0)
    (hlost : |-t.coeff j row / t.coeff col row| ≤ prec) (k : Nat) :
    |t''.coeff j k - t.coeff j k| ≤ prec * (1 + scale) := by
  have hrow : t'.coeff j row = 0 := by
    rw [h.first.entry j row (.inr hown), pivotEntry_row _ _ _ hj, Scalar.snap_rat, if_pos hlost]
  rw [h.second.coeff_skipped hj hrow, mul_add, mul_one]
  by_cases hk : k = row
  · rw [hk, hrow, zero_sub, abs_neg]
    have hlost' := abs_le_of_abs_div_le h.place.element (hscale.col row) hlost
    rw [abs_neg] at hlost'
    linarith
  · rw [h.first.entry j k (.inr hown), pivotEntry_other _ _ _ hj hk]
    have hsnap := Scalar.abs_snap_sub_le hprec
      (t.coeff j k - t.coeff col k * t.coeff j row / t.coeff col row)
    have hchange : |t.coeff j k - t.coeff col k * t.coeff j row / t.coeff col row - t.coeff j k|
        ≤ prec * scale := by
      have hproduct : t.coeff j k - t.coeff col k * t.coeff j row / t.coeff col row - t.coeff j k
          = -t.coeff j row / t.coeff col row * t.coeff col k := by ring
      rw [hproduct, abs_mul]
      exact mul_le_mul hlost (hscale.col k) (abs_nonneg _) hprec
    exact (abs_sub_le _ _ _).trans (add_le_add hsnap hchange)

include hclear

/-- In the pivot column, what the first pivot takes was divided by the
element. -/
theorem abs_column_sub_le (k : Nat) : |t''.coeff col k - t.coeff col k| ≤ prec * scale := by
  have hp := h.place.element
  have hzero : 0 ≤ prec * scale := mul_nonneg hprec ((abs_nonneg _).trans (hscale.col k))
  rw [h.second.entry col k (.inl rfl)]
  by_cases hk : k = row
  · rw [hk, pivotEntry_element, h.element, one_div_one_div, hclear.snap_coeff, sub_self, abs_zero]
    exact hzero
  · rw [pivotEntry_column _ _ _ hk, h.element, div_div_eq_mul_div, div_one,
      h.first.entry col k (.inl rfl), pivotEntry_column _ _ _ hk]
    rcases Scalar.snap_cases prec (t.coeff col k / t.coeff col row) with ⟨hv, hv'⟩ | ⟨-, hv'⟩
    · rw [hv', zero_mul, Scalar.snap_zero, zero_sub, abs_neg]
      exact abs_le_of_abs_div_le hp (hscale.col row) hv
    · rw [hv', div_mul_cancel₀ _ hp, hclear.snap_coeff, sub_self, abs_zero]
      exact hzero

/-- A column whose entry in the pivot row is kept gets that entry back, and
the others up to what was snapped. -/
theorem abs_kept_sub_le {j : Nat} (hj : j ≠ col) (hown : t.coeff j row ≠ 0)
    (hkept : prec < |-t.coeff j row / t.coeff col row|) (k : Nat) :
    |t''.coeff j k - t.coeff j k| ≤ prec * (1 + max 1 scale) := by
  have hp := h.place.element
  have hrow : t'.coeff j row = -t.coeff j row / t.coeff col row := by
    rw [h.first.entry j row (.inr hown), pivotEntry_row _ _ _ hj, Scalar.snap_rat,
      if_neg (not_le.2 hkept)]
  have hne : t'.coeff j row ≠ 0 := by
    rw [hrow]
    exact abs_pos.1 (lt_of_le_of_lt hprec hkept)
  have hmax : (1 : Rat) ≤ max 1 scale := le_max_left 1 scale
  rw [h.second.entry j k (.inr hne)]
  by_cases hk : k = row
  · have hback : -(-t.coeff j row / t.coeff col row) / (1 / t.coeff col row) = t.coeff j row := by
      field_simp
    rw [hk, pivotEntry_row _ _ _ hj, hrow, h.element, hback, hclear.snap_coeff, sub_self, abs_zero]
    exact mul_nonneg hprec (by linarith)
  · have hentry : t'.pivotEntry row col j k
        = Scalar.snap prec (t.coeff j k - t.coeff col k * t.coeff j row / t.coeff col row)
          + Scalar.snap prec (t.coeff col k / t.coeff col row) * t.coeff j row := by
      rw [pivotEntry_other _ _ _ hj hk, h.element, hrow, h.first.entry j k (.inr hown),
        h.first.entry col k (.inl rfl), pivotEntry_other _ _ _ hj hk, pivotEntry_column _ _ _ hk]
      field_simp
      ring
    rw [hentry]
    refine (Scalar.abs_restored_sub_le hprec (hclear.snap_coeff j k)).trans ?_
    exact mul_le_mul_of_nonneg_left (add_le_add_right (max_le_max_left 1 (hscale.row j)) 1) hprec

/-- **No entry is further from what it was** than `prec` times one more than
the scale, or twice `prec` where the scale is below one. -/
theorem abs_coeff_sub_le (j k : Nat) :
    |t''.coeff j k - t.coeff j k| ≤ prec * (1 + max 1 scale) := by
  have hlarger : scale ≤ max 1 scale := le_max_right 1 scale
  have hmax : (1 : Rat) ≤ max 1 scale := le_max_left 1 scale
  by_cases hj : j = col
  · rw [hj]
    refine (h.abs_column_sub_le hprec hscale hclear k).trans ?_
    exact mul_le_mul_of_nonneg_left (by linarith) hprec
  · by_cases hown : t.coeff j row = 0
    -- both pivots leave the column alone
    · have hown' : t'.coeff j row = 0 := (h.first.coeff_skipped hj hown row).trans hown
      rw [h.second.coeff_skipped hj hown', h.first.coeff_skipped hj hown, sub_self, abs_zero]
      exact mul_nonneg hprec (by linarith)
    · rcases le_or_gt |-t.coeff j row / t.coeff col row| prec with hlost | hkept
      · refine (h.abs_lost_sub_le hprec hscale hj hown hlost k).trans ?_
        exact mul_le_mul_of_nonneg_left (by linarith) hprec
      · exact h.abs_kept_sub_le hprec hscale hclear hj hown hkept k

end Twice

/-- How far a tableau is from what it was after two pivots at one place. -/
def repivotGap (t : Tableau Rat) (prec : Rat) (fused fused' : Bool) (row col : Nat) :
    Except (Fault Rat) Rat := do
  let (_, t') ← t.pivot ⟨prec, fused⟩ row col
  let (_, t'') ← t'.pivot ⟨prec, fused'⟩ row col
  t''.maxAbsDiff t

theorem repivotGap_eq {prec p q : Rat} {fused fused' : Bool}
    (hfirst : t.pivot ⟨prec, fused⟩ row col = .ok (p, t'))
    (hsecond : t'.pivot ⟨prec, fused'⟩ row col = .ok (q, t'')) :
    t.repivotGap prec fused fused' row col = t''.maxAbsDiff t := by
  unfold repivotGap
  rw [hfirst]
  show (t'.pivot ⟨prec, fused'⟩ row col >>= fun second => second.2.maxAbsDiff t) = _
  rw [hsecond]
  rfl

/-- The objective `1/2 + x₁/2` over the row `1/2 + x₁`. -/
def halves : Tableau Rat := ⟨⟨1/2, [1/2]⟩, [⟨1/2, [1]⟩], by decide⟩

/-- **PIVOTING TWICE AT ONE PLACE RESTORES A TABLEAU UP TO ITS SCALE**, over
the rationals with snapping, if no entry of it is as small as `prec` and the
reciprocal of the element is not either: both pivots succeed, in any of the
four combinations of fused and plain.  If the first pivot snapped nothing,
the tableau is restored.  Otherwise what was snapped comes back multiplied
by an entry of the pivot row or of the pivot column, and no entry is
further than `prec * (1 + max 1 scale)` from what it was. -/
theorem repivot_within (t : Tableau Rat) (row col : Nat) (h : t.Pivotable row col) (prec : Rat)
    (hprec : 0 < prec) (hclear : t.ClearOf prec) (hrecip : prec < |1 / t.coeff col row|)
    (fused fused' : Bool) :
    ∃ t' t'', t.pivot ⟨prec, fused⟩ row col = .ok (t.coeff col row, t')
      ∧ t'.pivot ⟨prec, fused'⟩ row col = .ok (1 / t.coeff col row, t'')
      ∧ (t.pivot ⟨0, fused⟩ row col = .ok (t.coeff col row, t') → t'' = t)
      ∧ ∀ scale, t.Within row col scale →
          ∃ gap, t''.maxAbsDiff t = .ok gap ∧ gap ≤ prec * (1 + max 1 scale) := by
  obtain ⟨t', hfirst, hformula⟩ := h.exists_pivot ⟨prec, fused⟩
  obtain ⟨hagain, helement⟩ := h.again hformula hrecip
  obtain ⟨t'', hsecond, hformula'⟩ := hagain.exists_pivot ⟨prec, fused'⟩
  rw [helement] at hsecond
  have htwice : Twice prec row col t t' t'' := ⟨h, hformula, helement, hformula'⟩
  refine ⟨t', t'', hfirst, hsecond, fun hexact => ?_, fun scale hscale => ?_⟩
  · obtain ⟨u, hu, hformula₀⟩ := h.exists_pivot ⟨0, fused⟩
    obtain rfl : u = t' := congrArg Prod.snd (Except.ok.inj (hu.symm.trans hexact))
    exact IsPivot.eq_of_exact h hclear hformula₀ hformula'
  · apply maxAbsDiff_le
    · rw [hformula'.rows, hformula.rows]
    · rw [hformula'.cols, hformula.cols]
    · have hmax : (1 : Rat) ≤ max 1 scale := le_max_left 1 scale
      exact mul_nonneg (le_of_lt hprec) (by linarith)
    · exact htwice.abs_coeff_sub_le (le_of_lt hprec) hscale hclear

/-- The bound is attained: the objective value is first snapped and then
lost a second time. -/
theorem repivot_within_halves :
    ∃ t' t'', halves.pivot ⟨1/4, true⟩ 1 1 = .ok (1, t')
      ∧ t'.pivot ⟨1/4, false⟩ 1 1 = .ok (1, t'')
      ∧ t''.maxAbsDiff halves = .ok (1/2) ∧ (1/2 : Rat) ≤ 1/4 * (1 + max 1 1) := by
  have hplace : halves.Pivotable 1 1 := by decide +kernel
  have hscale : halves.Within 1 1 1 := within_of_mem zero_le_one (by decide +kernel)
  obtain ⟨t', t'', hfirst, hsecond, -, hbound⟩ :=
    repivot_within halves 1 1 hplace (1/4) (by norm_num) (by decide +kernel) (by decide +kernel)
      true false
  obtain ⟨gap, hgap, hle⟩ := hbound 1 hscale
  have hlost : halves.repivotGap (1/4) true false 1 1 = .ok (1/2) := by cbv
  rw [repivotGap_eq hfirst hsecond, hgap] at hlost
  obtain rfl : gap = 1/2 := Except.ok.inj hlost
  have hrecip : 1 / halves.coeff 1 1 = 1 := by decide +kernel
  rw [hrecip] at hsecond
  exact ⟨t', t'', hfirst, hsecond, hgap, hle⟩

/-- The objective `8 + x₁` over the row `16 + 4 x₁`. -/
def vanishing : Tableau Rat := ⟨⟨8, [16]⟩, [⟨1, [4]⟩], by decide⟩

/-- **`prec` is no bound.**  In `lossy` the quotient `1/4` is snapped, and
the second pivot does not give back 16 times as much; in `vanishing` the
reciprocal is snapped, and the second pivot is refused. -/
theorem lossy_vanishing_repivotGap :
    (lossy.ClearOf (1/4) ∧ lossy.Pivotable 1 1
        ∧ ∀ fused fused', lossy.repivotGap (1/4) fused fused' 1 1 = .ok 4)
      ∧ vanishing.ClearOf (1/4) ∧ vanishing.Pivotable 1 1
        ∧ ∀ fused fused',
          vanishing.repivotGap (1/4) fused fused' 1 1 = .error (.badPivot 0 1 1) := by
  refine ⟨⟨by decide +kernel, by decide +kernel, ?_⟩, by decide +kernel, by decide +kernel, ?_⟩
  · intro fused fused'
    cases fused <;> cases fused' <;> cbv
  · intro fused fused'
    cases fused <;> cases fused' <;> cbv

end Tableau

end DenseSimplex
