/-
  DenseSimplex.Proofs.WorkingPrecision
  ────────────────────────────────────
  **RIGHT-HAND SIDES OF DOUBLES.**

  With exact arithmetic no chosen pivot carries a right-hand side below
  `-prec`.  With doubles the length of the step and the new right-hand
  sides are rounded.  A row that was not tighter than the leaving one loses

      at most   max (rhs · 2⁻⁵³) 2⁻⁵¹

  beyond zero before the one rounding of its multiply-add
  (`BoundingRow.neg_max_le`), and that rounding does not carry it below
  `-prec` if the loss is within `prec`.  With the default thresholds this
  covers right-hand sides up to 9007, and beyond that the guarantee fails:
  two rows that are tied at a step of 1/5 are enough
  (`Dictionary.fifths_negativeRhs`).

  So a step stops at its check of the right-hand sides only for one of
  three causes (`Loop.step_negativeRhs`): the step is not finite, the
  right-hand side was above 9007, or an artificial variable left in place
  of a row that was tighter.
-/
import DenseSimplex.Proofs.Rounding
import DenseSimplex.Proofs.Transitions

namespace DenseSimplex

open Double

/-! ## §1. The ratio test of doubles. -/

namespace Double

variable {v a : Float}

/-- The room of a row that the ratio test sees. -/
theorem exists_datum_clamped (hv : Scalar.isFinite v = true) :
    ∃ m e, Binary.datum (Scalar.clamped v) = .finite false m e ∧ dyadic m e = max (value v) 0 := by
  obtain ⟨s, m, e, hd, -, -, hvalue⟩ := exists_datum hv
  have hlt := lt_iff_value isFinite_zero hv
  rw [value_zero] at hlt
  unfold Scalar.clamped
  split
  next hpos =>
    have hpos := hlt.1 hpos
    rw [max_eq_left hpos.le]
    rw [hvalue] at hpos ⊢
    cases s with
    | false => exact ⟨m, e, hd, rfl⟩
    | true => exact absurd hpos (not_lt.2 (neg_nonpos.2 (dyadic_nonneg m e)))
  next hpos =>
    refine ⟨0, -1074, datum_zero, ?_⟩
    rw [max_eq_right (not_lt.1 fun h => hpos (hlt.2 h)), dyadic_zero]

theorem magnitude_eq_neg (ha : Scalar.isFinite a = true) (hneg : value a < 0) :
    Scalar.magnitude a = -a := by
  have hlt : a < 0 := by rwa [lt_iff_value ha isFinite_zero, value_zero]
  exact if_pos hlt

theorem exists_datum_neg (ha : Scalar.isFinite a = true) (hneg : value a < 0) :
    ∃ m e, 0 < m ∧ Binary.datum (-a) = .finite false m e ∧ dyadic m e = -value a := by
  obtain ⟨s, m, e, hd, -, -, hvalue⟩ := exists_datum ha
  rw [hvalue] at hneg ⊢
  cases s with
  | false => exact absurd hneg (not_lt.2 (dyadic_nonneg m e))
  | true =>
      refine ⟨m, e, ?_, datum_neg hd, (neg_neg _).symm⟩
      rcases Nat.eq_zero_or_pos m with rfl | hm
      · have hzero : signed true (dyadic 0 e) = 0 := by
          rw [dyadic_zero]
          exact neg_zero
        exact absurd hneg (not_lt.2 hzero.ge)
      · exact hm

/-- A ratio has no sign. -/
theorem exists_datum_ratio (hv : Scalar.isFinite v = true) (ha : Scalar.isFinite a = true)
    (hneg : value a < 0) :
    ∃ m e, Normalized m e ∧ Binary.datum (Scalar.clamped v / -a)
      = if e ≤ 971 then .finite false m e else .infinite false := by
  obtain ⟨mv, ev, hdv, -⟩ := exists_datum_clamped hv
  obtain ⟨ma, ea, hma, hda, -⟩ := exists_datum_neg ha hneg
  obtain ⟨m, e, hn, hd, -⟩ := exists_datum_div hdv hda hma
  exact ⟨m, e, hn, hd⟩

/-- **The factor of an elimination is the ratio of its row**, to the last
bit. -/
theorem neg_div_eq_ratio (hv : Scalar.isFinite v = true) (h0 : 0 ≤ value v)
    (hne : (v == 0) = false) : -v / a = Scalar.clamped v / -a := by
  have hvalue : value v ≠ 0 := by
    intro h
    rw [← value_zero] at h
    rw [(beq_iff_value hv isFinite_zero).2 h] at hne
    cases hne
  have hpos : 0 < v := by
    rw [lt_iff_value isFinite_zero hv, value_zero]
    exact lt_of_le_of_ne h0 hvalue.symm
  have hclamped : Scalar.clamped v = v := if_pos hpos
  rw [Double.neg_div, hclamped]

/-- No double is as large as 2¹⁰²⁴. -/
theorem neg_value_lt (ha : Scalar.isFinite a = true) : -value a < 2 ^ (1024 : Int) := by
  obtain ⟨s, m, e, -, hn, he, hvalue⟩ := exists_datum ha
  have hlt : dyadic m e < 2 ^ (1024 : Int) :=
    (dyadic_lt_two_zpow hn.lt e).trans_le (zpow_le_zpow_right₀ one_le_two (by omega))
  rw [hvalue]
  cases s with
  | false => exact (neg_nonpos.2 (dyadic_nonneg m e)).trans_lt (two_zpow_pos _)
  | true => exact (neg_neg (dyadic m e)).trans_lt hlt

end Double

/-- **What a row can lose.**  A step that is not longer than the ratio of
a row carries the row below zero by no more than half a last place of its
right-hand side, or 2⁻⁵¹ if that is more. -/
theorem BoundingRow.neg_max_le {r : BoundingRow Float} {v step : Float}
    (ha : Scalar.isFinite r.entry = true) (hneg : value r.entry < 0)
    (hv : Scalar.isFinite v = true) (hv0 : 0 ≤ value v)
    (havail : r.available = Scalar.clamped v) (hstep : Scalar.isFinite step = true)
    (hle : step ≤ r.ratio) :
    -max (value v * 2 ^ (-53 : Int)) (2 ^ (-51 : Int)) ≤ value r.entry * value step + value v := by
  obtain ⟨mv, ev, hdv, hvalue⟩ := exists_datum_clamped hv
  obtain ⟨ma, ea, hma, hda, hentry⟩ := exists_datum_neg ha hneg
  rw [max_eq_left hv0] at hvalue
  unfold ratio at hle
  rw [havail, magnitude_eq_neg ha hneg] at hle
  have hbound := value_le_of_le_div hdv hda hma hstep hle
  rw [hvalue, hentry] at hbound
  have hpos : 0 < -value r.entry := by linarith
  have htiny : -value r.entry * 2 ^ (-1075 : Int) ≤ 2 ^ (-51 : Int) := by
    have hbig := neg_value_lt ha
    calc -value r.entry * 2 ^ (-1075 : Int) ≤ 2 ^ (1024 : Int) * 2 ^ (-1075 : Int) := by gcongr
      _ = 2 ^ (-51 : Int) := by
          rw [← zpow_add₀ two_ne_zero]
          norm_num
  have hquotient : -value r.entry * (value v / -value r.entry) = value v :=
    mul_div_cancel₀ _ hpos.ne'
  -- the slack of the quotient, times the entry
  have hslack : -value r.entry * roundingSlack (value v / -value r.entry)
      ≤ max (value v * 2 ^ (-53 : Int)) (2 ^ (-51 : Int)) := by
    unfold roundingSlack
    rw [mul_max_of_nonneg _ _ hpos.le, ← mul_assoc, hquotient]
    exact max_le_max_left _ htiny
  have hmul := mul_le_mul_of_nonneg_left hbound hpos.le
  rw [mul_add, hquotient, neg_mul] at hmul
  have hlimit := hmul.trans (add_le_add_right hslack _)
  linarith

/-! ## §2. The check of the right-hand sides. -/

namespace Tableau

theorem isViolated_eq_false {prec v : Float} (h : -prec ≤ v) : isViolated prec v = false := by
  obtain ⟨⟨-, hv⟩, hle⟩ := le_iff.1 h
  have hlt : ¬ v < -prec := fun hlt => absurd (lt_iff.1 hlt).2 (not_lt.2 hle)
  have hself : v ≤ v := comparable_isNumber.refl hv
  unfold isViolated Scalar.isNotNumber
  rw [decide_eq_false hlt, decide_eq_true hself]
  rfl

end Tableau

/-- An entry of a column after a pivot elsewhere: the old one, if nothing
was to be eliminated; the factor, in the pivot row; or a new one. -/
theorem Column.getElem?_eliminated {α : Type} [Scalar α] {e : Elimination α} {pivot own w : α}
    {row i : Nat} {pivotColumn c : Column α} (hown : c.entries[row]? = some own)
    (h : (eliminated e pivot (row + 1) pivotColumn c).entries[i]? = some w) :
    c.entries[i]? = some w
      ∨ (own == 0) = false ∧ (w = Scalar.snap e.prec (-own / pivot)
        ∨ ∃ v p, c.entries[i]? = some v ∧ pivotColumn.entries[i]? = some p
            ∧ w = e.entry pivot own v p) := by
  have hget : c.get? (row + 1) = some own := hown
  unfold eliminated at h
  rw [hget] at h
  dsimp only at h
  split at h
  next => exact .inl h
  next hne =>
    refine .inr ⟨Bool.eq_false_iff.2 hne, ?_⟩
    simp only [zipWith, set] at h
    rw [List.getElem?_set] at h
    split at h
    next =>
      left
      split at h
      · exact (Option.some.inj h).symm
      · cases h
    next =>
      right
      rw [List.getElem?_zipWith] at h
      split at h
      next v p hv hp => exact ⟨v, p, hv, hp, (Option.some.inj h).symm⟩
      next => cases h

/-- **A step stops at its check of right-hand sides** only after a pivot at
a chosen place. -/
theorem Walk.exists_place_of_negativeRhs {ω τ γ : Type} [Scalar τ] [Element ω τ] [Source γ]
    (s : Settings ω) (w : Walk τ γ) (hd : w.dictionary.WellFormed) {k row col : Nat} {v : τ}
    (h : (w.step s).result = .error (.negativeRhs k v row col)) :
    ∃ (q : w.dictionary.Place) (c : Choice τ), q.Chosen (s.limits τ) c ∧ c.row = row ∧ c.col = col
      ∧ (q.tableau (s.elimination τ)).violation (s.limits τ).prec = some (k, v) := by
  obtain ⟨after, ⟨-, hstep⟩ | ⟨_, -, hstep⟩ | ⟨c, q, hq, hstep⟩⟩ := step_cases s w hd
  · rw [hstep] at h
    cases h
  · rw [hstep] at h
    cases h
  · rw [hstep, make_eq s { w with source := after } hd hq] at h
    split at h
    · cases h
    · split at h
      next hviolation =>
        cases h
        exact ⟨q, c, hq, rfl, rfl, (violation_eq_some hviolation).2⟩
      -- past this check there are other faults, but not this one
      next =>
        dsimp only at h
        split at h
        · cases h
        · split at h <;> cases h

/-! ## §3. One pivot. -/

namespace Dictionary

variable {d : Dictionary Float} {limits : Limits Float} {c : Choice Float}

/-- The constraint entries of a dictionary are finite, and its right-hand
sides not negative. -/
structure Measured (d : Dictionary Float) : Prop where
  wellFormed : d.WellFormed
  column : ∀ c ∈ d.tableau.columns, ∀ v ∈ c.entries, Scalar.isFinite v = true
  rhs : ∀ v ∈ d.tableau.rhs.entries, Scalar.isFinite v = true ∧ 0 ≤ value v

theorem measured_of_validate (hd : d.validate = .ok ())
    (hf : ∀ v ∈ d.tableau.rhs.entries, 0 ≤ v) : d.Measured := by
  obtain ⟨hwf, hfinite⟩ := validate_eq_ok_iff.1 hd
  refine ⟨hwf, fun c hc v hv => ?_, fun v hv => ?_⟩
  · exact Tableau.isFinite_of_findNonFinite hfinite (List.mem_cons_of_mem _ hc) hv
  · have hv' := Tableau.isFinite_of_findNonFinite hfinite List.mem_cons_self hv
    refine ⟨hv', ?_⟩
    rw [← value_zero]
    exact (le_iff_value isFinite_zero hv').1 (hf v hv)

theorem lt_neg_pivotTol_iff (htol : limits.pivotTol = 0) {a : Float}
    (ha : Scalar.isFinite a = true) : a < -limits.pivotTol ↔ value a < 0 := by
  rw [htol, lt_iff_value ha (isFinite_neg isFinite_zero), value_neg isFinite_zero, value_zero,
    neg_zero]

namespace Place

variable {q : d.Place}

theorem isFinite_element (q : d.Place) (hd : d.Measured) : Scalar.isFinite q.element = true :=
  hd.column _ (List.mem_of_getElem? q.column_at) _ (List.mem_of_getElem? q.element_at)

namespace Chosen

theorem value_element_neg (h : q.Chosen limits c) (hd : d.Measured)
    (htol : limits.pivotTol = 0) : value q.element < 0 :=
  (lt_neg_pivotTol_iff htol (q.isFinite_element hd)).1 h.element_lt

/-- The step of a chosen place is the ratio of its row. -/
theorem exists_ratio_eq (h : q.Chosen limits c) (hd : d.Measured) (htol : limits.pivotTol = 0) :
    ∃ own, d.tableau.rhs.entries[q.row]? = some own
      ∧ c.ratio = Scalar.clamped own / -q.element := by
  obtain ⟨b, hb, hrow, hentry, -, rfl⟩ := h.leaves
  obtain ⟨⟨k, own, hk, -, hown, havail, -⟩, -⟩ :=
    BoundingRow.mem_ofColumn.1 (BoundingRow.leaving_mem hb)
  obtain rfl : k = q.row := by omega
  refine ⟨own, hown, ?_⟩
  show b.available / Scalar.magnitude b.entry = _
  rw [havail, hentry, magnitude_eq_neg (q.isFinite_element hd) (h.value_element_neg hd htol)]

end Chosen

/-- The ratios of a column are numbers, if infinite ones. -/
theorem isNumber_ratio (q : d.Place) (hd : d.Measured) (htol : limits.pivotTol = 0) :
    ∀ r ∈ BoundingRow.ofColumn limits.pivotTol q.column.entries d.tableau.rhs.entries d.left,
      IsNumber r.ratio := by
  intro r hr
  obtain ⟨⟨k, v, -, hentry, hv, havail, -⟩, hlt⟩ := BoundingRow.mem_ofColumn.1 hr
  have hfinite :=
    hd.column _ (List.mem_of_getElem? q.column_at) _ (List.mem_of_getElem? hentry)
  rw [lt_neg_pivotTol_iff htol hfinite] at hlt
  obtain ⟨m, e, -, hdatum⟩ :=
    exists_datum_ratio (hd.rhs _ (List.mem_of_getElem? hv)).1 hfinite hlt
  unfold BoundingRow.ratio
  rw [havail, magnitude_eq_neg hfinite hlt]
  exact isNumber_of_datum hdatum

namespace Chosen

/-- **Only an artificial variable leaves in place of a tighter row.** -/
theorem evicts_of_tighter (h : q.Chosen limits c) (hd : d.Measured)
    (htol : limits.pivotTol = 0) {r : BoundingRow Float}
    (hr : r ∈ BoundingRow.ofColumn limits.pivotTol q.column.entries d.tableau.rhs.entries d.left)
    (hlt : r.ratio < c.ratio) : c.evictsArtificial = true := by
  obtain ⟨b, hb, -, -, -, rfl⟩ := h.leaves
  apply BoundingRow.isArtificial_of_tighter comparable_isNumber (q.isNumber_ratio hd htol) hb hr
  intro hle
  exact absurd (lt_iff.1 hlt).2 (not_lt.2 (le_iff.1 hle).2)

/-- The multiply-add of a row that was not tighter than the leaving one
stays at or above `-prec`, if half a last place of its right-hand side is
within `prec`. -/
theorem neg_prec_le_fma (h : q.Chosen limits c) (hd : d.Measured) (htol : limits.pivotTol = 0)
    (hprec : Scalar.isFinite limits.prec = true) (hcoarse : 2 ^ (-51 : Int) ≤ value limits.prec)
    (hstep : Scalar.isFinite c.ratio = true) {i : Nat} {v p : Float}
    (hv : d.tableau.rhs.entries[i]? = some v) (hp : q.column.entries[i]? = some p)
    (hsmall : value v * 2 ^ (-53 : Int) ≤ value limits.prec)
    (hrows : ∀ r ∈ BoundingRow.ofColumn limits.pivotTol q.column.entries
      d.tableau.rhs.entries d.left, r.row = i + 1 → ¬ r.ratio < c.ratio) :
    -limits.prec ≤ Scalar.fma p c.ratio v := by
  obtain ⟨hvfinite, hv0⟩ := hd.rhs _ (List.mem_of_getElem? hv)
  have hpfinite : Scalar.isFinite p = true :=
    hd.column _ (List.mem_of_getElem? q.column_at) _ (List.mem_of_getElem? hp)
  have hpos := two_zpow_pos (-51)
  apply le_fma hpfinite hstep hvfinite (isFinite_neg hprec)
  · rw [value_neg hprec]
    linarith
  · rw [value_neg hprec]
    by_cases hneg : value p < 0
    -- a row with a negative entry bounds the step, and the leaving row is as tight
    · have hrow : i < d.left.length := by
        rw [hd.wellFormed.left_length]
        exact (List.getElem?_eq_some_iff.1 hv).1
      obtain ⟨r, hr, hri, rfl, havail⟩ := BoundingRow.exists_mem_ofColumn hp hv hrow
        ((lt_neg_pivotTol_iff htol hpfinite).2 hneg)
      have hle : c.ratio ≤ r.ratio := comparable_isNumber.of_not_lt (isNumber_of_isFinite hstep)
        (q.isNumber_ratio hd htol r hr) (hrows r hr hri)
      have hloss := BoundingRow.neg_max_le hpfinite hneg hvfinite hv0 havail hstep hle
      have hmax := max_le hsmall hcoarse
      linarith
    -- a row without one gains
    · obtain ⟨own, hown, hratio⟩ := h.exists_ratio_eq hd htol
      obtain ⟨m, e, -, hdatum⟩ := exists_datum_ratio (hd.rhs _ (List.mem_of_getElem? hown)).1
        (q.isFinite_element hd) (h.value_element_neg hd htol)
      rw [← hratio] at hdatum
      have hgain := mul_nonneg (not_lt.1 hneg) (value_nonneg_of_datum hdatum hstep)
      linarith

/-- **What a violated right-hand side tells about the pivot**, for any
tolerance of at least 2⁻⁵¹. -/
theorem cause_of_violation (h : q.Chosen limits c) (hd : d.Measured)
    (htol : limits.pivotTol = 0) (hprec : Scalar.isFinite limits.prec = true)
    (hcoarse : 2 ^ (-51 : Int) ≤ value limits.prec) {k : Nat} {w : Float}
    (hw : (q.tableau ⟨limits.prec, true⟩).violation limits.prec = some (k, w)) :
    ∃ i v, k = i + 1 ∧ d.tableau.rhs.entries[i]? = some v
      ∧ (Scalar.isFinite c.ratio = false ∨ value limits.prec < value v * 2 ^ (-53 : Int)
        ∨ ∃ r ∈ BoundingRow.ofColumn limits.pivotTol q.column.entries d.tableau.rhs.entries
            d.left, r.row = k ∧ r.ratio < c.ratio) := by
  obtain ⟨i, rfl, hget, hviolated⟩ := Tableau.exists_of_violation hw
  obtain ⟨own, hown, hratio⟩ := h.exists_ratio_eq hd htol
  obtain ⟨hownfinite, hown0⟩ := hd.rhs _ (List.mem_of_getElem? hown)
  have hpos := two_zpow_pos (-51)
  have hzero : -limits.prec ≤ 0 := by
    rw [le_iff_value (isFinite_neg hprec) isFinite_zero, value_neg hprec, value_zero]
    linarith
  -- an entry of at least `-prec` is not the violated one, snapped or not
  have hkept {v : Float} (hv : -limits.prec ≤ v) : w ≠ v := by
    rintro rfl
    rw [Tableau.isViolated_eq_false hv] at hviolated
    cases hviolated
  have hsnapped {v : Float} (hv : -limits.prec ≤ v) : w ≠ Scalar.snap limits.prec v := by
    unfold Scalar.snap
    split
    · exact hkept hzero
    · exact hkept hv
  rcases Column.getElem?_eliminated hown hget with hsame | ⟨hne, hnew | ⟨v, p, hv, hp, hnew⟩⟩
  · obtain ⟨hwfinite, hw0⟩ := hd.rhs _ (List.mem_of_getElem? hsame)
    refine absurd rfl (hkept ?_)
    rw [le_iff_value (isFinite_neg hprec) hwfinite, value_neg hprec]
    linarith
  -- the pivot row gets the ratio, which has no sign
  · rw [neg_div_eq_ratio hownfinite hown0 hne] at hnew
    obtain ⟨m, e, hn, hdatum⟩ :=
      exists_datum_ratio hownfinite (q.isFinite_element hd) (h.value_element_neg hd htol)
    refine absurd hnew (hsnapped (comparable_isNumber.trans hzero ?_))
    rw [le_iff, datum_zero]
    exact ⟨⟨isNumber_of_isFinite isFinite_zero, isNumber_of_datum hdatum⟩,
      rank_nonneg_of_datum hdatum hn⟩
  · refine ⟨i, v, rfl, hv, ?_⟩
    unfold Elimination.entry at hnew
    rw [if_pos rfl, neg_div_eq_ratio hownfinite hown0 hne, ← hratio] at hnew
    by_contra hno
    push Not at hno
    obtain ⟨hstep, hsmall, hrows⟩ := hno
    exact absurd hnew (hsnapped
      (h.neg_prec_le_fma hd htol hprec hcoarse (by simpa using hstep) hv hp hsmall hrows))

end Chosen

end Place

end Dictionary

/-! ## §4. The default thresholds. -/

/-- The default thresholds of doubles, and products fused with their
difference. -/
structure Settings.IsStandard (s : Settings Float) : Prop where
  limits : s.limits Float = (Settings.standard Float ({} : Overrides Float)).limits Float
  fused : s.fused = true

namespace Settings.IsStandard

variable {s : Settings Float} (hs : s.IsStandard)

include hs

theorem pivotTol_eq : (s.limits Float).pivotTol = 0 := by
  rw [hs.limits]
  rfl

theorem datum_prec : Binary.datum (s.limits Float).prec = .finite false 4951760157141521 (-92) := by
  rw [hs.limits]
  decide +kernel

theorem value_prec : value (s.limits Float).prec = 4951760157141521 * 2 ^ (-92 : Int) := by
  unfold value
  rw [hs.datum_prec]
  rfl

/-- Half a last place of a right-hand side that is not above 9007 is within
the tolerance. -/
theorem lt_of_value_prec_lt {v : Float} (hv : Scalar.isFinite v = true)
    (h : value (s.limits Float).prec < value v * 2 ^ (-53 : Int)) : 9007 < v := by
  have hdatum : Binary.datum (9007 : Float) = .finite false 4951650615689216 (-39) := by
    decide +kernel
  have hvalue : value 9007 = 9007 := by
    unfold value
    rw [hdatum]
    show (4951650615689216 : Nat) * (2 : Rat) ^ (-39 : Int) = 9007
    norm_num
  rw [lt_iff_value (isFinite_of_datum hdatum) hv, hvalue]
  rw [hs.value_prec] at h
  norm_num at h
  linarith

end Settings.IsStandard

/-- **WHAT MAKES THE CHECK OF THE RIGHT-HAND SIDES FAIL.**  From a valid
dictionary of doubles without negative right-hand sides, with the default
thresholds and the fused update, whatever the source of coins: if a step
stops because row `k` became negative, then the length of the step is not
finite, or the right-hand side of the row was above 9007, or an artificial
variable left although row `k` was tighter. -/
theorem Loop.step_negativeRhs {γ : Type} [Source γ] (loop : Loop Float γ)
    (hs : loop.settings.IsStandard) {d : Dictionary Float} (hd : d.validate = .ok ())
    (hf : ∀ v ∈ d.tableau.rhs.entries, 0 ≤ v) {k row col : Nat} {w : Float}
    (h : (loop.step d).2.result = .error (.negativeRhs k w row col)) :
    ∃ (q : d.Place) (c : Choice Float) (i : Nat) (v : Float),
      q.Chosen (loop.settings.limits Float) c ∧ c.row = row ∧ c.col = col
      ∧ k = i + 1 ∧ d.tableau.rhs.entries[i]? = some v
      ∧ (Scalar.isFinite c.ratio = false
        ∨ 9007 < v
        ∨ c.evictsArtificial = true
          ∧ ∃ r ∈ BoundingRow.ofColumn (loop.settings.limits Float).pivotTol q.column.entries
              d.tableau.rhs.entries d.left, r.row = k ∧ r.ratio < c.ratio) := by
  have hmeasured := Dictionary.measured_of_validate hd hf
  obtain ⟨q, c, hq, hrow, hcol, hviolation⟩ :=
    Walk.exists_place_of_negativeRhs loop.settings (loop.walk d) hmeasured.wellFormed h
  have hcoarse : (2 : Rat) ^ (-51 : Int) ≤ value (loop.settings.limits Float).prec := by
    rw [hs.value_prec]
    norm_num
  unfold Settings.elimination at hviolation
  rw [hs.fused] at hviolation
  obtain ⟨i, v, hk, hv, hcause⟩ := hq.cause_of_violation hmeasured hs.pivotTol_eq
    (isFinite_of_datum hs.datum_prec) hcoarse hviolation
  refine ⟨q, c, i, v, hq, hrow, hcol, hk, hv, ?_⟩
  rcases hcause with hinfinite | hlarge | ⟨r, hr, hri, hlt⟩
  · exact .inl hinfinite
  · have hfinite := (hmeasured.rhs v (List.mem_of_getElem? hv)).1
    exact .inr (.inl (hs.lt_of_value_prec_lt hfinite hlarge))
  · exact .inr (.inr ⟨hq.evicts_of_tighter hmeasured hs.pivotTol_eq hr hlt, r, hr, hri, hlt⟩)

/-- A loop with the default settings for doubles. -/
def Loop.double : Loop Float (Nat → UInt64) := ⟨.standard Float {}, .off, fun _ => 0, none, 0, 0⟩

/-- Two rows `x₂ = 1 - 5 x₁` and `x₃ = 100000 - 500000 x₁`, which reach
zero at the same step. -/
def Dictionary.fifths : Dictionary Float where
  tableau := ⟨⟨0, [1, 100000]⟩, [⟨1, [-5, -500000]⟩], by decide⟩
  left := [2, 3]
  right := [1]
  artificials := 0

/-- Here it is the large right-hand side: row 2 was not tighter. -/
theorem Loop.step_negativeRhs_fifths :
    ∃ (q : Dictionary.fifths.Place) (c : Choice Float) (i : Nat) (v : Float),
      q.Chosen (Loop.double.settings.limits Float) c ∧ c.row = 1 ∧ c.col = 1
      ∧ 2 = i + 1 ∧ Dictionary.fifths.tableau.rhs.entries[i]? = some v
      ∧ (Scalar.isFinite c.ratio = false
        ∨ 9007 < v
        ∨ c.evictsArtificial = true
          ∧ ∃ r ∈ BoundingRow.ofColumn (Loop.double.settings.limits Float).pivotTol
              q.column.entries Dictionary.fifths.tableau.rhs.entries Dictionary.fifths.left,
            r.row = 2 ∧ r.ratio < c.ratio) :=
  Loop.step_negativeRhs Loop.double ⟨rfl, rfl⟩ (by rfl) (by decide +kernel)
    (by rfl : (Loop.double.step Dictionary.fifths).2.result
      = .error (.negativeRhs 2 (Float.ofBits 0xbd986a0000000000) 1 1))

/-- The nearest double to 1/5 is above it, by so much that the second row
is lost: its right-hand side becomes -5.55e-12. -/
theorem Dictionary.fifths_negativeRhs :
    Dictionary.fifths.validate = .ok ()
      ∧ (∀ v ∈ Dictionary.fifths.tableau.rhs.entries, 0 ≤ v)
      ∧ Loop.double.settings = Settings.standard Float ({} : Overrides Float)
      ∧ (Loop.double.step Dictionary.fifths).2.result
        = .error (.negativeRhs 2 (Float.ofBits 0xbd986a0000000000) 1 1) :=
  ⟨by rfl, by decide +kernel, rfl, by rfl⟩

-- The other two causes do occur.  Here the first row is divided by the least
-- double, so the step is infinite; below, an artificial variable leaves from
-- row 2, at a step of 0.001000000000001, where row 1 allows 0.001.
example :
    let loop : Loop Float (Nat → UInt64) := ⟨.standard Float {}, .off, fun _ => 0, none, 0, 0⟩
    (loop.step
      { tableau := ⟨⟨0, [1, 1]⟩, [⟨1, [Float.ofBits 0x8000000000000001, 0]⟩], by decide⟩
        left := [2, 3], right := [1], artificials := 0 }).2.result
      = .error (.negativeRhs 2 (Float.ofBits 0x7ff8000000000000) 1 1) := by rfl

example :
    let loop : Loop Float (Nat → UInt64) := ⟨.standard Float {}, .off, fun _ => 0, none, 0, 0⟩
    (loop.step
      { tableau := ⟨⟨0, [1, 0.001000000000001]⟩, [⟨1, [-1000, -1]⟩], by decide⟩
        left := [2, -3], right := [1], artificials := 1 }).2.result
      = .error (.negativeRhs 1 (Float.ofBits 0xbd71980000000000) 2 1) := by rfl

end DenseSimplex
