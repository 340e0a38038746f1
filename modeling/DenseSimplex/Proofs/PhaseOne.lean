/-
  DenseSimplex.Proofs.PhaseOne
  ────────────────────────────
  **PHASE 1 KEEPS ITS OBJECTIVE.**

  At the start of phase 1 the artificial variables are in the basis and
  row 0 is minus the sum of their rows (`Dictionary.IsPhaseOne`).  A pivot
  on row `l` of column `p` takes, in every row `k` that stays,

      v k  ↦  v k - p k · v l / p l,

  row 0 included, and this map commutes with sums of rows.  At `k = l` it
  gives 0, so it makes no difference whether row `l` is counted: it may
  belong to an artificial variable that leaves.  That is why the identity
  survives a change of the artificial rows in the same step
  (`Place.artificialSum_eliminate`).

  A column that nothing bounds has no negative entry, so its objective
  entry is minus a sum of non-negative numbers and does not improve; and
  where no artificial row is left, row 0 is an empty sum
  (`Visits.phaseOne_kept`).
-/
import DenseSimplex.Proofs.Infeasibility

namespace DenseSimplex

namespace Dictionary

/-! ## §1. Sums over the artificial rows. -/

/-- The sum over the artificial rows as a sum over all rows. -/
theorem artificialSum_eq (d : Dictionary Rat) (value : Nat → Rat) :
    d.artificialSum value
      = (d.left.mapIdx fun k id => if isArtificial id = true then value (k + 1) else 0).sum := by
  rw [List.mapIdx_eq_zipIdx_map]
  unfold artificialSum artificialRows
  induction d.left.zipIdx with
  | nil => rfl
  | cons p rows ih =>
      obtain ⟨id, k⟩ := p
      rw [List.map_cons, List.sum_cons, ← ih, List.filter_cons]
      dsimp only
      by_cases hp : isArtificial id = true
      · rw [if_pos hp, List.map_cons, List.sum_cons, if_pos hp]
      · rw [if_neg hp, if_neg hp, zero_add]

/-- Only the values of artificial rows matter. -/
theorem artificialSum_congr {d : Dictionary Rat} {f g : Nat → Rat}
    (h : ∀ k id, d.left[k]? = some id → isArtificial id = true → f (k + 1) = g (k + 1)) :
    d.artificialSum f = d.artificialSum g := by
  unfold artificialSum
  congr 1
  apply List.map_congr_left
  intro p hp
  obtain ⟨hmem, hart⟩ := List.mem_filter.1 hp
  exact h p.2 p.1 (List.mk_mem_zipIdx_iff_getElem?.1 hmem) hart

theorem artificialSum_nonneg {d : Dictionary Rat} {f : Nat → Rat} (h : ∀ k, 0 ≤ f (k + 1)) :
    0 ≤ d.artificialSum f := by
  unfold artificialSum
  apply List.sum_nonneg
  intro v hv
  obtain ⟨p, -, rfl⟩ := List.mem_map.1 hv
  exact h p.2

theorem artificialSum_of_artificials_eq_zero {d : Dictionary Rat} (hd : d.WellFormed)
    (h : d.artificials = 0) (value : Nat → Rat) : d.artificialSum value = 0 := by
  have hrows : d.artificialRows = [] := by
    unfold artificialRows
    rw [List.filter_eq_nil_iff]
    intro p hp hart
    have hleft : p.1 ∈ d.left := List.fst_mem_of_mem_zipIdx hp
    exact hd.artificials_ne_zero (List.mem_append_left _ hleft) hart h
  unfold artificialSum
  rw [hrows]
  rfl

/-! ## §2. A pivot. -/

namespace Place

variable {d : Dictionary Rat} {e : Elimination Rat}

theorem left_result (q : Place d) (e : Elimination Rat) :
    (q.result e).left = d.left.set q.row q.entering := by
  unfold result
  split <;> rfl

/-- After a pivot that brings no artificial variable in, the pivot row is
not among the artificial rows, and the others are those that were. -/
theorem artificialSum_result (q : Place d) (e : Elimination Rat)
    (hentering : isArtificial q.entering = false) (value : Nat → Rat) :
    (q.result e).artificialSum value
      = d.artificialSum value - if isArtificial q.leaving = true then value (q.row + 1) else 0 := by
  obtain ⟨hrow, hleaving⟩ := List.getElem?_eq_some_iff.1 q.leaving_at
  have hgone : (if isArtificial q.entering = true then value (q.row + 1) else 0) = 0 :=
    if_neg (by simp [hentering])
  rw [artificialSum_eq, artificialSum_eq, q.left_result, List.mapIdx_set, List.sum_set',
    dif_pos (by rw [List.length_mapIdx]; exact hrow), List.getElem_mapIdx, hleaving, hgone,
    add_zero, sub_eq_add_neg]

/-- A sum over the new artificial rows does not see the pivot row. -/
theorem artificialSum_result_congr (q : Place d) (e : Elimination Rat)
    (hentering : isArtificial q.entering = false) {f g : Nat → Rat}
    (h : ∀ k, k ≠ q.row → f (k + 1) = g (k + 1)) :
    (q.result e).artificialSum f = (q.result e).artificialSum g := by
  apply artificialSum_congr
  intro k id hid hart
  apply h
  rintro rfl
  -- the pivot row now holds the variable that entered
  rw [q.left_result, List.getElem?_set_self (List.getElem?_eq_some_iff.1 q.leaving_at).1] at hid
  rw [← Option.some.inj hid, hentering] at hart
  cases hart

/-- **Elimination commutes with the sum over the artificial rows**, whether
the pivot row is one of them or not. -/
theorem artificialSum_eliminate (q : Place d) (he : e.prec = 0) (hp : q.element ≠ 0)
    (hentering : isArtificial q.entering = false) {c : Column Rat}
    (hc : c.height = d.tableau.height) :
    (q.result e).artificialSum (q.eliminate e c).coeff
      = d.artificialSum c.coeff
        + d.artificialSum q.column.coeff * -(c.coeff (q.row + 1) / q.element) := by
  have hformula : (q.result e).artificialSum (q.eliminate e c).coeff
      = (q.result e).artificialSum
          fun k => c.coeff k + q.column.coeff k * -(c.coeff (q.row + 1) / q.element) := by
    apply q.artificialSum_result_congr e hentering
    intro k hk
    rw [q.coeff_eliminate he hc, if_neg (by omega)]
    ring
  -- in the pivot row itself the formula gives zero
  have hzero : c.coeff (q.row + 1)
      + q.column.coeff (q.row + 1) * -(c.coeff (q.row + 1) / q.element) = 0 := by
    rw [q.coeff_column]
    field_simp
    ring
  rw [hformula, q.artificialSum_result e hentering, hzero, ite_self, sub_zero,
    artificialSum_add_mul]

/-- The columns after a pivot: those from before after elimination, and the
pivot column unless it was forgotten. -/
theorem mem_allColumns_result (q : Place d) {c' : Column Rat}
    (h : c' ∈ (q.result e).tableau.allColumns) :
    (∃ c ∈ d.tableau.allColumns, c' = q.eliminate e c)
      ∨ isArtificial q.leaving = false
        ∧ c' = Column.exchanged e q.element (q.row + 1) q.column := by
  have hother : ∀ j, j ≠ q.col → (q.tableau e).columns[j]? = some c' →
      ∃ c ∈ d.tableau.allColumns, c' = q.eliminate e c := by
    intro j hj hc'
    rw [q.columns_tableau_at, Option.map_eq_some_iff] at hc'
    obtain ⟨c, hc, rfl⟩ := hc'
    exact ⟨c, List.mem_cons_of_mem _ (List.mem_of_getElem? hc), if_neg hj⟩
  rcases List.mem_cons.1 h with rfl | hmem
  · exact .inl ⟨_, List.mem_cons_self, q.rhs_result e⟩
  · unfold result at hmem
    cases hart : isArtificial q.leaving with
    | true =>
        rw [if_pos hart] at hmem
        obtain ⟨j, hj, hc'⟩ := List.mem_eraseIdx_iff_getElem?.1 hmem
        exact .inl (hother j hj hc')
    | false =>
        rw [if_neg (by simp [hart])] at hmem
        obtain ⟨j, hc'⟩ := List.getElem?_of_mem hmem
        by_cases hj : j = q.col
        · subst hj
          have hpivot := q.column_exchanged_at e
          rw [show (q.exchanged e).tableau.columns[q.col]? = some c' from hc'] at hpivot
          exact .inr ⟨rfl, Option.some.inj hpivot⟩
        · exact .inl (hother j hj hc')

/-- **A pivot keeps the objective of phase 1.** -/
theorem isPhaseOne_result (q : Place d) (he : e.prec = 0) (hp : q.element ≠ 0)
    (h : d.IsPhaseOne) : (q.result e).IsPhaseOne := by
  have hentering : isArtificial q.entering = false := h.right _ (List.mem_of_getElem? q.entering_at)
  have hcolumn : q.column.objective = -d.artificialSum q.column.coeff :=
    h.objective _ (List.mem_cons_of_mem _ (List.mem_of_getElem? q.column_at))
  refine ⟨fun id hid => ?_, fun c' hc' => ?_⟩
  -- the variable that moved into the column is forgotten if it is artificial
  · unfold result at hid
    cases hart : isArtificial q.leaving with
    | true =>
        rw [if_pos hart] at hid
        have hmem : id ∈ (d.right.set q.col q.leaving).eraseIdx q.col := hid
        rw [List.eraseIdx_set_eq] at hmem
        exact h.right id (List.mem_of_mem_eraseIdx hmem)
    | false =>
        rw [if_neg (by simp [hart])] at hid
        rcases List.mem_or_eq_of_mem_set hid with hmem | rfl
        · exact h.right id hmem
        · exact hart
  · rcases q.mem_allColumns_result hc' with ⟨c, hc, rfl⟩ | ⟨hart, rfl⟩
    · have hheight : c.height = d.tableau.height := by
        rcases List.mem_cons.1 hc with rfl | hc
        · rfl
        · exact d.tableau.uniform c hc
      rw [q.artificialSum_eliminate he hp hentering hheight, ← Column.coeff_zero,
        q.coeff_eliminate he hheight, if_neg (by omega), Column.coeff_zero, Column.coeff_zero,
        h.objective c hc, hcolumn]
      ring
    · have hrow : q.row + 1 ≤ q.column.height := by
        rw [q.column_height]
        exact q.row_lt
      have hsum : (q.result e).artificialSum
            (Column.exchanged e q.element (q.row + 1) q.column).coeff
          = (q.result e).artificialSum fun k => 0 + q.column.coeff k * q.element⁻¹ := by
        apply q.artificialSum_result_congr e hentering
        intro k hk
        rw [Column.coeff_exchanged_exact he _ hrow, if_neg (by omega), zero_add, div_eq_mul_inv]
      have hnone : d.artificialSum (fun _ => 0) = 0 := by
        have := d.artificialSum_add_mul (fun _ => 0) (fun _ => 0) 1
        simpa using this
      rw [hsum, q.artificialSum_result e hentering, if_neg (by simp [hart]), sub_zero,
        artificialSum_add_mul, hnone, ← Column.coeff_zero,
        Column.coeff_exchanged_exact he _ hrow, if_neg (by omega), Column.coeff_zero, hcolumn]
      ring

end Place

/-! ## §3. Moves. -/

theorem Moves.isPhaseOne {s : Settings Rat} {d d' : Dictionary Rat} {r : StepResult Rat}
    (h : d.Moves s r d') (hs : s.prec = 0) (hd : d.IsPhaseOne) : d'.IsPhaseOne := by
  cases h with
  | optimal => exact hd
  | unbounded => exact hd
  | pivoted q hq hgood => exact q.isPhaseOne_result hs (q.element_ne_zero hgood) hd

theorem Reaches.isPhaseOne {P : Settings Rat → Prop} (hP : ∀ s, P s → s.prec = 0)
    {d₀ d : Dictionary Rat} {ids : List Int} (h : Reaches P d₀ ids d) (hd : d₀.IsPhaseOne) :
    d.IsPhaseOne := by
  induction h with
  | start => exact hd
  | move _ hs hm ih => exact hm.isPhaseOne (hP _ hs) ih

/-- **In phase 1 every improving column is bounded**: where nothing bounds
a column, its objective entry is not positive. -/
theorem IsPhaseOne.not_isUnbounded {d : Dictionary Rat} (h : d.IsPhaseOne) (hd : d.WellFormed)
    {limits : Limits Rat} (htol : limits.pivotTol = 0) (heps : 0 ≤ limits.epsObjective)
    (col : Nat) :
    ¬ IsUnbounded limits d.tableau.rhs.entries d.left 1 d.tableau.columns col := by
  intro hunbounded
  obtain ⟨j, c, hc, -, himproves, hnone⟩ := hunbounded
  have hmem : c ∈ d.tableau.columns := List.mem_of_getElem? hc
  have hsum : 0 ≤ d.artificialSum c.coeff :=
    artificialSum_nonneg (coeff_nonneg_of_leavingRow_eq_none hd hmem htol hnone)
  have hobjective := h.objective c (List.mem_cons_of_mem _ hmem)
  have hpositive := not_le.1 himproves
  linarith

end Dictionary

/-- **PHASE 1 KEEPS ITS OBJECTIVE.**  From a valid phase 1 dictionary
without negative right-hand sides, whatever steps and invocations are made
in exact arithmetic, in every dictionary on the way:

  * all three facts hold again;
  * every artificial variable is in the basis, and was there at the start;
  * once no artificial variable is left, row 0 is zero in every column;
  * no step and no invocation finds the objective unbounded. -/
theorem Visits.phaseOne_kept {d₀ d : Dictionary Rat} (hd : d₀.validate = .ok ())
    (hf : d₀.Feasible) (hphase : d₀.IsPhaseOne) (h : Visits Settings.IsExact d₀ d) :
    (d.validate = .ok () ∧ d.Feasible ∧ d.IsPhaseOne)
      ∧ (∀ id ∈ d.labels, isArtificial id = true → id ∈ d.left ∧ id ∈ d₀.left)
      ∧ (d.artificials = 0 → ∀ c ∈ d.tableau.allColumns, c.objective = 0)
      ∧ ∀ {γ : Type} [Source γ] (loop : Loop Rat γ), loop.settings.IsExact →
          (∀ col, (loop.step d).2.result ≠ .ok (.unbounded col))
            ∧ ∀ clock o, (loop.run clock d).result = .ok o → o.status ≠ .unbounded := by
  have hsound₀ : d₀.Sound := ⟨Dictionary.validate_rat_iff.1 hd, hf⟩
  obtain ⟨ids, hreach⟩ := h.reaches (fun _ hs => hs.tight) hsound₀
  have hsound := hreach.sound (fun _ hs => hs.tight) hsound₀
  have hkept := hreach.isPhaseOne (fun _ hs => hs.prec) hphase
  refine ⟨⟨Dictionary.validate_rat_iff.2 hsound.wellFormed, hsound.feasible, hkept⟩,
    fun id hid hart => ?_, fun hzero c hc => ?_, fun loop hs => ⟨fun col hr => ?_, ?_⟩⟩
  · have hleft : ∀ {d : Dictionary Rat}, d.IsPhaseOne → id ∈ d.labels → id ∈ d.left := by
      intro d hphase hid
      refine (List.mem_append.1 hid).resolve_right fun hright => ?_
      rw [hphase.right id hright] at hart
      cases hart
    exact ⟨hleft hkept hid,
      hleft hphase (hreach.labels_perm.mem_iff.2 (List.mem_append_right _ hid))⟩
  · rw [hkept.objective c hc,
      Dictionary.artificialSum_of_artificials_eq_zero hsound.wellFormed hzero, neg_zero]
  · have hmove := (Walk.moves_of_step loop.settings (loop.walk d) hsound.wellFormed hr).1
    exact (hmove.isPhaseOne hs.prec hkept).not_isUnbounded (hmove.wellFormed hsound.wellFormed)
      hs.pivotTol hs.epsObjective col hmove.unbounded_isUnbounded
  · intro clock o hr hstatus
    obtain ⟨hrun, hholds, -, -⟩ := loop.run_reaches clock hsound.wellFormed hr
    rw [hstatus] at hholds
    obtain ⟨col, hcol⟩ := hholds
    have hkept' := hrun.isPhaseOne (fun s h => (show s = loop.settings from h) ▸ hs.prec) hkept
    exact hkept'.not_isUnbounded (hrun.wellFormed hsound.wellFormed) hs.pivotTol
      hs.epsObjective col hcol

/-- Two equations, `x₁ + x₂ = 3` and `x₁ - x₂ = 1`, each with its artificial
variable in the basis. -/
def Dictionary.twoEquations : Dictionary Rat where
  tableau := ⟨⟨-4, [3, 1]⟩, [⟨2, [-1, -1]⟩, ⟨0, [-1, 1]⟩], by decide⟩
  left := [-1, -2]
  right := [1, 2]
  artificials := 2

/-- The first step eliminates the tighter artificial variable; row 0 is
then minus the row of the other one, and the second step brings row 0 to
zero. -/
theorem Visits.phaseOne_kept_twoEquations :
    (Loop.exact.step Dictionary.twoEquations).2.walk.dictionary.tableau.objectiveRow = [-2, 2]
      ∧ (Loop.exact.step Dictionary.twoEquations).2.walk.dictionary.IsPhaseOne
      ∧ (Loop.exact.run (fun _ => false)
          Dictionary.twoEquations).dictionary.tableau.objectiveRow = [0] := by
  have hexact : Loop.exact.settings.IsExact := ⟨rfl, rfl, le_refl 0⟩
  have hf : Dictionary.twoEquations.Feasible := by
    show ∀ v ∈ [(3 : Rat), 1], 0 ≤ v
    norm_num
  have hphase : Dictionary.twoEquations.IsPhaseOne := ⟨by decide, by decide +kernel⟩
  have hstep := Visits.phaseOne_kept (by rfl) hf hphase (.step .start Loop.exact hexact)
  have hrun := Visits.phaseOne_kept (by rfl) hf hphase
    (.run .start Loop.exact hexact fun _ => false)
  have hcount : (Loop.exact.run (fun _ => false)
      Dictionary.twoEquations).dictionary.artificials = 0 := by cbv
  have hwidth : (Loop.exact.run (fun _ => false)
      Dictionary.twoEquations).dictionary.tableau.allColumns.length = 1 := by cbv
  refine ⟨by cbv, hstep.1.2.2, ?_⟩
  -- row 0 is a list of zeros, one for each column that is left
  have hzero := List.eq_replicate_iff.2 ⟨rfl, List.forall_mem_map.2 (hrun.2.2.1 hcount)⟩
  rw [List.length_map, hwidth] at hzero
  exact hzero

end DenseSimplex
