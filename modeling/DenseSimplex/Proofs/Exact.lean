/-
  DenseSimplex.Proofs.Exact
  ─────────────────────────
  **PIVOTING OVER THE EXACT RATIONALS, ENTRY BY ENTRY.**

  Over the rationals the operations of `Scalar` are what their names say
  (§1), and the two ways to update an entry, fused and plain, agree (§2):

      entry  =  snap (v - p · own / pivot),

  where `snap` sends magnitudes of at most `prec` to zero and is the
  identity for `prec = 0`.  A column is read through `Column.coeff`, the
  entry of a row or zero where there is no such row, and §3 gives the
  columns after a pivot in these terms.
-/
import DenseSimplex.Proofs.WellFormed

namespace DenseSimplex

/-! ## §1. The operations. -/

namespace Scalar

theorem magnitude_rat (v : Rat) : magnitude v = |v| := by
  unfold magnitude
  split
  next h => exact (abs_of_neg h).symm
  next h => exact (abs_of_nonneg (not_lt.1 h)).symm

theorem clamped_rat (v : Rat) : clamped v = max v 0 := by
  unfold clamped
  split
  next h => exact (max_eq_left (le_of_lt h)).symm
  next h => exact (max_eq_right (not_lt.1 h)).symm

theorem snap_rat (prec v : Rat) : snap prec v = if |v| ≤ prec then 0 else v := by
  unfold snap
  rw [magnitude_rat]

/-- Nothing but zero has magnitude zero. -/
theorem snap_zero_prec (v : Rat) : snap 0 v = v := by
  rw [snap_rat]
  split
  next h => exact (abs_eq_zero.1 (le_antisymm h (abs_nonneg v))).symm
  next => rfl

theorem snap_zero (prec : Rat) : snap prec 0 = 0 := by
  rw [snap_rat]
  split <;> rfl

/-- A value that is not below `-prec` is not negative once it is
snapped. -/
theorem snap_nonneg {prec v : Rat} (h : -prec ≤ v) : 0 ≤ snap prec v := by
  rw [snap_rat]
  split
  next => exact le_refl 0
  next hbig =>
    by_contra hneg
    rw [abs_of_neg (not_le.1 hneg)] at hbig
    exact hbig (by linarith)

/-- What is snapped is small, and anything else stays. -/
theorem snap_cases (prec v : Rat) :
    (|v| ≤ prec ∧ snap prec v = 0) ∨ (prec < |v| ∧ snap prec v = v) := by
  rw [snap_rat]
  by_cases h : |v| ≤ prec
  · exact .inl ⟨h, if_pos h⟩
  · exact .inr ⟨not_le.1 h, if_neg h⟩

/-- A value is moved by at most `prec` when it is snapped. -/
theorem abs_snap_sub_le {prec : Rat} (h : 0 ≤ prec) (v : Rat) :
    |snap prec v - v| ≤ prec := by
  rw [snap_rat]
  split
  next hsmall =>
    rw [zero_sub, abs_neg]
    exact hsmall
  next =>
    rw [sub_self, abs_zero]
    exact h

theorem findNonFinite_rat (t : Tableau Rat) : t.findNonFinite = none := by
  unfold Tableau.findNonFinite
  rw [Option.map_eq_none_iff, List.findIdx?_eq_none_iff]
  intro v _
  rfl

end Scalar

namespace Dictionary

/-- **Over the rationals, validity is well-formedness.** -/
theorem validate_rat_iff {d : Dictionary Rat} : d.validate = .ok () ↔ d.WellFormed := by
  rw [validate_eq_ok_iff, and_iff_left (Scalar.findNonFinite_rat _)]

end Dictionary

/-- Settings that leave the arithmetic exact: every threshold is zero.  An
invocation ends when the basis becomes feasible, and every pivot is
checked. -/
def Settings.exact : Settings Rat where
  epsObjective := 0
  prec := 0
  pivotTol := 0
  ratioTieTol := 0
  degenerateTol := 0
  fused := true
  budget := .unlimited
  continueAfterFeasible := false
  checkInvariants := true
  reportInterval := 1
  verbose := false

/-! ## §2. One entry. -/

/-- **The fused update is the plain one.** -/
theorem Elimination.entry_rat (e : Elimination Rat) (pivot own v p : Rat) :
    e.entry pivot own v p = Scalar.snap e.prec (v - p * own / pivot) := by
  unfold Elimination.entry
  split
  · have hfma : Scalar.fma p (-own / pivot) v = v - p * own / pivot := by
      show p * (-own / pivot) + v = v - p * own / pivot
      ring
    rw [hfma]
  · rfl

/-! ## §3. One column. -/

namespace Column

/-- The entry of a row, row 0 being the objective row; zero where there is
no such row. -/
def coeff (c : Column Rat) (row : Nat) : Rat := (c.get? row).getD 0

@[simp] theorem coeff_zero (c : Column Rat) : c.coeff 0 = c.objective := rfl

theorem coeff_succ_of_getElem? {c : Column Rat} {k : Nat} {v : Rat} (h : c.entries[k]? = some v) :
    c.coeff (k + 1) = v := by
  show (c.entries[k]?).getD 0 = v
  rw [h]
  rfl

theorem getElem?_eq_coeff {c : Column Rat} {k : Nat} (h : k < c.height) :
    c.entries[k]? = some (c.coeff (k + 1)) := by
  rw [coeff_succ_of_getElem? (List.getElem?_eq_getElem h)]
  exact List.getElem?_eq_getElem h

theorem coeff_of_height_le {c : Column Rat} {k : Nat} (h : c.height ≤ k) : c.coeff (k + 1) = 0 := by
  show (c.entries[k]?).getD 0 = 0
  rw [List.getElem?_eq_none h]
  rfl

/-- A bound that is not positive holds of the constraint entries if it
holds of every row. -/
theorem forall_le_iff {c : Column Rat} {low : Rat} (hlow : low ≤ 0) :
    (∀ v ∈ c.entries, low ≤ v) ↔ ∀ k, low ≤ c.coeff (k + 1) := by
  constructor
  · intro h k
    by_cases hk : k < c.height
    · exact h _ (List.mem_of_getElem? (getElem?_eq_coeff hk))
    · rwa [coeff_of_height_le (not_lt.1 hk)]
  · intro h v hv
    obtain ⟨k, hk, rfl⟩ := List.getElem_of_mem hv
    rw [← coeff_succ_of_getElem? (List.getElem?_eq_getElem hk)]
    exact h k

/-- Columns of one height are equal if their entries are. -/
theorem ext_coeff {c d : Column Rat} (hheight : c.height = d.height)
    (h : ∀ k, c.coeff k = d.coeff k) : c = d := by
  have hentries : c.entries = d.entries := by
    apply List.ext_getElem?
    intro k
    by_cases hk : k < c.height
    · rw [getElem?_eq_coeff hk, getElem?_eq_coeff (hheight ▸ hk), h]
    · have hk' : ¬ k < d.height := hheight ▸ hk
      rw [List.getElem?_eq_none (Nat.le_of_not_lt hk), List.getElem?_eq_none (Nat.le_of_not_lt hk')]
  obtain ⟨objective, entries⟩ := c
  obtain ⟨objective', entries'⟩ := d
  obtain rfl : entries = entries' := hentries
  obtain rfl : objective = objective' := h 0
  rfl

theorem get?_eq_some_coeff {c : Column Rat} {row : Nat} (h : row ≤ c.height) :
    c.get? row = some (c.coeff row) := by
  have hlt : row < c.toList.length := by
    show row < c.entries.length + 1
    exact Nat.lt_succ_of_le h
  show c.toList[row]? = some ((c.toList[row]?).getD 0)
  rw [List.getElem?_eq_getElem hlt]
  rfl

theorem get?_set {α : Type} (c : Column α) {row : Nat} (h : row ≤ c.height) (v : α) (k : Nat) :
    (c.set row v).get? k = if k = row then some v else c.get? k := by
  have htoList : (c.set row v).toList = c.toList.set row v := by cases row <;> rfl
  show (c.set row v).toList[k]? = _
  rw [htoList, List.getElem?_set]
  by_cases hk : row = k
  · subst hk
    rw [if_pos rfl, if_pos rfl, if_pos]
    show row < c.entries.length + 1
    exact Nat.lt_succ_of_le h
  · rw [if_neg hk, if_neg (Ne.symm hk)]
    rfl

theorem coeff_set (c : Column Rat) {row : Nat} (h : row ≤ c.height) (v : Rat) (k : Nat) :
    (c.set row v).coeff k = if k = row then v else c.coeff k := by
  unfold coeff
  rw [c.get?_set h]
  split <;> rfl

theorem coeff_zipWith {f : Rat → Rat → Rat} (hf : f 0 0 = 0) {c d : Column Rat}
    (h : c.height = d.height) (k : Nat) : (zipWith f c d).coeff k = f (c.coeff k) (d.coeff k) := by
  have htoList : (zipWith f c d).toList = List.zipWith f c.toList d.toList := rfl
  have hlen : c.toList.length = d.toList.length := congrArg (· + 1) h
  show (((zipWith f c d).toList)[k]?).getD 0 = f ((c.toList[k]?).getD 0) ((d.toList[k]?).getD 0)
  rw [htoList, List.getElem?_zipWith]
  -- below the last row both entries are zero, and so is what `f` makes of them
  by_cases hk : k < c.toList.length
  · rw [List.getElem?_eq_getElem hk, List.getElem?_eq_getElem (hlen ▸ hk)]
    rfl
  · rw [List.getElem?_eq_none (by omega), List.getElem?_eq_none (by omega)]
    exact hf.symm

theorem coeff_map {f : Rat → Rat} (hf : f 0 = 0) (c : Column Rat) (k : Nat) :
    (c.map f).coeff k = f (c.coeff k) := by
  have htoList : (c.map f).toList = c.toList.map f := rfl
  show (((c.map f).toList)[k]?).getD 0 = f ((c.toList[k]?).getD 0)
  rw [htoList, List.getElem?_map]
  cases c.toList[k]? with
  | none => exact hf.symm
  | some v => rfl

/-- **A column other than the pivot column after the pivot.**  With a zero
in the pivot row it is left alone. -/
theorem coeff_eliminated (e : Elimination Rat) (pivot : Rat) {row : Nat} {pc c : Column Rat}
    (hh : c.height = pc.height) (hrow : row ≤ c.height) (k : Nat) :
    (eliminated e pivot row pc c).coeff k =
      if c.coeff row = 0 then c.coeff k
      else Scalar.snap e.prec (if k = row then -c.coeff row / pivot
        else c.coeff k - pc.coeff k * c.coeff row / pivot) := by
  unfold eliminated
  rw [get?_eq_some_coeff hrow]
  by_cases hown : c.coeff row = 0
  · simp only [hown]
    rfl
  · have hbeq : (c.coeff row == 0) = false := beq_false_of_ne hown
    have hzero : e.entry pivot (c.coeff row) 0 0 = 0 := by
      rw [e.entry_rat, zero_mul, zero_div, sub_zero, Scalar.snap_zero]
    simp only [hbeq, hown, if_false]
    have hheight : row ≤ (zipWith (e.entry pivot (c.coeff row)) c pc).height := by
      rw [height_zipWith _ hh]
      exact hrow
    show ((zipWith (e.entry pivot (c.coeff row)) c pc).set row
      (Scalar.snap e.prec (-c.coeff row / pivot))).coeff k = _
    rw [coeff_set _ hheight, coeff_zipWith hzero hh, e.entry_rat]
    split <;> rfl

/-- **The pivot column after the pivot.** -/
theorem coeff_exchanged (e : Elimination Rat) (pivot : Rat) {row : Nat} {c : Column Rat}
    (hrow : row ≤ c.height) (k : Nat) :
    (exchanged e pivot row c).coeff k =
      Scalar.snap e.prec (if k = row then 1 / pivot else c.coeff k / pivot) := by
  have hzero : Scalar.snap e.prec ((0 : Rat) / pivot) = 0 := by rw [zero_div, Scalar.snap_zero]
  unfold exchanged
  rw [coeff_set _ (by rw [height_map]; exact hrow), coeff_map hzero]
  split <;> rfl

/-- Without snapping, a column other than the pivot column is changed by
one formula, whether it was left alone or not. -/
theorem coeff_eliminated_exact {e : Elimination Rat} (he : e.prec = 0) (pivot : Rat) {row : Nat}
    {pc c : Column Rat} (hh : c.height = pc.height) (hrow : row ≤ c.height) (k : Nat) :
    (eliminated e pivot row pc c).coeff k =
      if k = row then -c.coeff row / pivot else c.coeff k - pc.coeff k * c.coeff row / pivot := by
  rw [coeff_eliminated e pivot hh hrow, he, Scalar.snap_zero_prec]
  -- a zero in the pivot row makes the formula the identity
  split
  next hown =>
    split
    next hk => rw [hk, hown, neg_zero, zero_div]
    next => rw [hown, mul_zero, zero_div, sub_zero]
  next => rfl

theorem coeff_exchanged_exact {e : Elimination Rat} (he : e.prec = 0) (pivot : Rat) {row : Nat}
    {c : Column Rat} (hrow : row ≤ c.height) (k : Nat) :
    (exchanged e pivot row c).coeff k =
      if k = row then 1 / pivot else c.coeff k / pivot := by
  rw [coeff_exchanged e pivot hrow, he, Scalar.snap_zero_prec]

end Column

end DenseSimplex
