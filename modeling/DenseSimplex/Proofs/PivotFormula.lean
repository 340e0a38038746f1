/-
  DenseSimplex.Proofs.PivotFormula
  ────────────────────────────────
  **A PIVOT IS THE SIMULTANEOUS EXCHANGE, FUSED OR PLAIN.**

  A pivot goes through the columns one by one, leaves some of them alone and
  writes the pivot row and the pivot column last.  Over the rationals all of
  this comes to one formula in the entries `a` of the tableau before it,
  with `p = a r l` (`Tableau.pivotEntry`):

      row              column r      column j ≠ r
      l                  1 / p         - a j l / p
      k ≠ l          a r k / p         a j k - a r k · a j l / p

  followed by a snap where the column was not left alone, and a column is
  left alone only where the formula changes nothing
  (`Tableau.IsPivot.coeff_eq`).  So snapping moves an entry by at most
  `prec`, and whether products are fused never shows: not in one pivot, and
  not in a run, with all its choices, events and counters
  (`Loop.run_fuse`).
-/
import DenseSimplex.Proofs.Exact
import DenseSimplex.Run

namespace DenseSimplex

/-! ## §1. Tableaux by their entries. -/

namespace Tableau

/-- The entry of a column and a row, zero where there is no such entry. -/
def coeff (t : Tableau Rat) (col row : Nat) : Rat := (t.entry? col row).getD 0

theorem coeff_of_column? {t : Tableau Rat} {j : Nat} {c : Column Rat} (h : t.column? j = some c)
    (k : Nat) : t.coeff j k = c.coeff k := by
  unfold coeff entry?
  rw [h]
  rfl

theorem coeff_of_cols_le {t : Tableau Rat} {j : Nat} (h : t.cols ≤ j) (k : Nat) :
    t.coeff j k = 0 := by
  have hnone : t.column? j = none := List.getElem?_eq_none h
  unfold coeff entry?
  rw [hnone]
  rfl

theorem mem_toColumnMajor {t : Tableau Rat} {j k : Nat} {v : Rat} (h : t.entry? j k = some v) :
    v ∈ t.toColumnMajor := by
  obtain ⟨c, hc, hv⟩ := Option.bind_eq_some_iff.1 h
  exact List.mem_flatMap.2 ⟨c, List.mem_of_getElem? hc, List.mem_of_getElem? hv⟩

/-- What is not zero is an entry. -/
theorem coeff_mem {t : Tableau Rat} {j k : Nat} (h : t.coeff j k ≠ 0) :
    t.coeff j k ∈ t.toColumnMajor := by
  unfold coeff at h ⊢
  cases hv : t.entry? j k with
  | none =>
      rw [hv] at h
      exact absurd rfl h
  | some v => exact mem_toColumnMajor hv

/-- **Tableaux of one shape are equal if their entries are.** -/
theorem ext_coeff {t u : Tableau Rat} (hrows : t.rows = u.rows) (hcols : t.cols = u.cols)
    (h : ∀ j k, t.coeff j k = u.coeff j k) : t = u := by
  have hheight : t.height = u.height := Nat.succ.inj hrows
  apply eq_of_allColumns
  apply List.ext_getElem?
  intro j
  show t.column? j = u.column? j
  by_cases hj : j < t.cols
  · obtain ⟨c, hc⟩ := t.exists_column? hj
    obtain ⟨d, hd⟩ := u.exists_column? (hcols ▸ hj)
    rw [hc, hd]
    congr 1
    apply Column.ext_coeff
    · rw [height_of_column? hc, height_of_column? hd, hheight]
    · intro k
      rw [← coeff_of_column? hc, ← coeff_of_column? hd, h]
  · have hj' : ¬ j < u.cols := hcols ▸ hj
    exact (List.getElem?_eq_none (Nat.le_of_not_lt hj)).trans
      (List.getElem?_eq_none (Nat.le_of_not_lt hj')).symm

/-! ## §2. The distance of two tableaux. -/

theorem foldl_widerGap_le {pairs : List (Rat × Rat)} {bound start : Rat} (hstart : start ≤ bound)
    (h : ∀ pair ∈ pairs, |pair.1 - pair.2| ≤ bound) : pairs.foldl widerGap start ≤ bound := by
  induction pairs generalizing start with
  | nil => exact hstart
  | cons pair pairs ih =>
      obtain ⟨hpair, hrest⟩ := List.forall_mem_cons.1 h
      apply ih _ hrest
      unfold widerGap
      dsimp only
      rw [Scalar.magnitude_rat]
      split
      · exact hpair
      · exact hstart

/-- Buffers of columns that are equally high pair up entry by entry. -/
theorem mem_zip_flatMap {cs ds : List (Column Rat)} {height : Nat} (hlength : cs.length = ds.length)
    (hcs : ∀ c ∈ cs, c.height = height) (hds : ∀ d ∈ ds, d.height = height) {pair : Rat × Rat}
    (h : pair ∈ (cs.flatMap Column.toList).zip (ds.flatMap Column.toList)) :
    ∃ (j k : Nat) (c d : Column Rat),
      cs[j]? = some c ∧ ds[j]? = some d ∧ pair = (c.coeff k, d.coeff k) := by
  induction cs generalizing ds with
  | nil => cases h
  | cons c cs ih =>
      cases ds with
      | nil => cases hlength
      | cons d ds =>
          obtain ⟨hc, hcs⟩ := List.forall_mem_cons.1 hcs
          obtain ⟨hd, hds⟩ := List.forall_mem_cons.1 hds
          have hheads : c.toList.length = d.toList.length := congrArg (· + 1) (hc.trans hd.symm)
          rw [List.flatMap_cons, List.flatMap_cons, List.zip_append hheads, List.mem_append] at h
          rcases h with h | h
          · obtain ⟨k, hk⟩ := List.getElem?_of_mem h
            obtain ⟨hck, hdk⟩ := List.getElem?_zip_eq_some.1 hk
            refine ⟨0, k, c, d, rfl, rfl, ?_⟩
            unfold Column.coeff Column.get?
            rw [hck, hdk]
            rfl
          · obtain ⟨j, k, c', d', hc', hd', hpair⟩ := ih (Nat.succ.inj hlength) hcs hds h
            exact ⟨j + 1, k, c', d', hc', hd', hpair⟩

/-- **The distance of two tableaux of one shape is at most a bound** if that
is true of each pair of entries. -/
theorem maxAbsDiff_le {t u : Tableau Rat} (hrows : t.rows = u.rows) (hcols : t.cols = u.cols)
    {bound : Rat} (hbound : 0 ≤ bound) (h : ∀ j k, |t.coeff j k - u.coeff j k| ≤ bound) :
    ∃ gap, t.maxAbsDiff u = .ok gap ∧ gap ≤ bound := by
  have hheight : t.height = u.height := Nat.succ.inj hrows
  have huniform : ∀ v : Tableau Rat, ∀ c ∈ v.allColumns, c.height = v.height := by
    intro v
    exact List.forall_mem_cons.2 ⟨rfl, v.uniform⟩
  have hlength : t.allColumns.length = u.allColumns.length := hcols
  unfold maxAbsDiff
  rw [if_pos ⟨hrows, hcols⟩]
  refine ⟨_, rfl, foldl_widerGap_le hbound ?_⟩
  intro pair hpair
  obtain ⟨j, k, c, d, hc, hd, rfl⟩ := mem_zip_flatMap hlength (huniform t)
    (fun d hd => (huniform u d hd).trans hheight.symm) hpair
  have hentry := h j k
  rwa [coeff_of_column? hc, coeff_of_column? hd] at hentry

/-! ## §3. One pivot. -/

/-- A place where a tableau can be pivoted: a constraint row and a variable
column with an element that is not zero. -/
@[mk_iff]
structure Pivotable (t : Tableau Rat) (row col : Nat) : Prop where
  row_pos : 1 ≤ row
  row_lt : row < t.rows
  col_pos : 1 ≤ col
  col_lt : col < t.cols
  element : t.coeff col row ≠ 0

instance (t : Tableau Rat) (row col : Nat) : Decidable (t.Pivotable row col) :=
  decidable_of_iff _ (t.pivotable_iff row col).symm

/-- **The simultaneous formula of a pivot**, before anything is snapped. -/
def pivotEntry (t : Tableau Rat) (row col j k : Nat) : Rat :=
  let p := t.coeff col row
  if j = col then
    if k = row then 1 / p else t.coeff col k / p
  else
    if k = row then -t.coeff j row / p else t.coeff j k - t.coeff col k * t.coeff j row / p

section

variable (t : Tableau Rat) (row col : Nat) {j k : Nat}

theorem pivotEntry_element : t.pivotEntry row col col row = 1 / t.coeff col row := by
  simp [pivotEntry]

theorem pivotEntry_column (hk : k ≠ row) :
    t.pivotEntry row col col k = t.coeff col k / t.coeff col row := by
  simp [pivotEntry, hk]

theorem pivotEntry_row (hj : j ≠ col) :
    t.pivotEntry row col j row = -t.coeff j row / t.coeff col row := by
  simp [pivotEntry, hj]

theorem pivotEntry_other (hj : j ≠ col) (hk : k ≠ row) : t.pivotEntry row col j k
    = t.coeff j k - t.coeff col k * t.coeff j row / t.coeff col row := by
  simp [pivotEntry, hj, hk]

end

/-- **What a pivot makes of a tableau.**  A column with a zero in the pivot
row is left alone, and all other entries are given by the formula and
snapped. -/
structure IsPivot (prec : Rat) (row col : Nat) (t t' : Tableau Rat) : Prop where
  rows : t'.rows = t.rows
  cols : t'.cols = t.cols
  skipped : ∀ j, j ≠ col → t.coeff j row = 0 → t'.column? j = t.column? j
  entry : ∀ j k, j = col ∨ t.coeff j row ≠ 0 →
    t'.coeff j k = Scalar.snap prec (t.pivotEntry row col j k)

/-- With a zero in the pivot row the formula changes nothing. -/
theorem pivotEntry_of_zero {t : Tableau Rat} {row col j : Nat} (hj : j ≠ col)
    (hzero : t.coeff j row = 0) (k : Nat) : t.pivotEntry row col j k = t.coeff j k := by
  by_cases hk : k = row
  · rw [hk, pivotEntry_row t row col hj, hzero, neg_zero, zero_div]
  · rw [pivotEntry_other t row col hj hk, hzero, mul_zero, zero_div, sub_zero]

/-- The columns that a pivot makes, one by one, are the formula. -/
theorem isPivot_pivoted {t : Tableau Rat} {row col : Nat} {pc : Column Rat}
    (hpc : t.column? col = some pc) (hrow : row < t.rows) (e : Elimination Rat)
    (hheight : pc.height = t.height) :
    IsPivot e.prec row col t (t.pivoted e row col (t.coeff col row) pc hheight) := by
  have hcolumn : ∀ j, (t.pivoted e row col (t.coeff col row) pc hheight).column? j
      = (t.column? j).map fun c =>
        if j = col then Column.exchanged e (t.coeff col row) row c
        else Column.eliminated e (t.coeff col row) row pc c := column?_mapColumns t _ _
  -- every column has an entry in the pivot row
  have hle : ∀ {j : Nat} {c : Column Rat}, t.column? j = some c → row ≤ c.height := by
    intro j c hc
    rw [height_of_column? hc]
    exact Nat.le_of_lt_succ hrow
  refine ⟨?_, ?_, ?_, ?_⟩
  · exact congrArg (· + 1) (height_mapColumns t _ _)
  · exact congrArg (· + 1) (width_mapColumns t _ _)
  · intro j hj hzero
    rw [hcolumn]
    cases hc : t.column? j with
    | none => rfl
    | some c =>
        have hown : c.coeff row = 0 := (coeff_of_column? hc row).symm.trans hzero
        rw [Option.map_some, if_neg hj, Column.eliminated, Column.get?_eq_some_coeff (hle hc), hown]
        rfl
  · intro j k hchanged
    unfold pivotEntry
    dsimp only
    by_cases hj : j = col
    · subst hj
      have hnew := hcolumn j
      rw [hpc, Option.map_some, if_pos rfl] at hnew
      rw [coeff_of_column? hnew, Column.coeff_exchanged e _ (hle hpc), if_pos rfl,
        coeff_of_column? hpc, coeff_of_column? hpc]
    · have hown : t.coeff j row ≠ 0 := hchanged.resolve_left hj
      have hlt : j < t.cols := by
        by_contra hge
        exact hown (coeff_of_cols_le (Nat.le_of_not_lt hge) row)
      obtain ⟨c, hc⟩ := t.exists_column? hlt
      have hnew := hcolumn j
      rw [hc, Option.map_some, if_neg hj] at hnew
      rw [coeff_of_column? hc] at hown
      have hsame : c.height = pc.height := (height_of_column? hc).trans hheight.symm
      rw [coeff_of_column? hnew, Column.coeff_eliminated e _ hsame (hle hc), if_neg hown, if_neg hj,
        coeff_of_column? hc, coeff_of_column? hc, coeff_of_column? hpc, coeff_of_column? hpc]

/-- **A pivot at a place succeeds**, and makes of the tableau what it
should. -/
theorem Pivotable.exists_pivot {t : Tableau Rat} {row col : Nat} (h : t.Pivotable row col)
    (e : Elimination Rat) :
    ∃ t', t.pivot e row col = .ok (t.coeff col row, t') ∧ IsPivot e.prec row col t t' := by
  obtain ⟨l, rfl⟩ := Nat.exists_eq_add_of_le' h.row_pos
  obtain ⟨r, rfl⟩ := Nat.exists_eq_add_of_le' h.col_pos
  obtain ⟨pc, hpc⟩ := t.exists_column? h.col_lt
  have hrow : l < pc.height := by
    rw [height_of_column? hpc]
    exact Nat.lt_of_succ_lt_succ h.row_lt
  have hcol : t.columns[r]? = some pc := hpc
  have hp := Column.getElem?_eq_coeff hrow
  have hne : pc.coeff (l + 1) ≠ 0 := by
    rw [← coeff_of_column? hpc]
    exact h.element
  refine ⟨_, ?_, isPivot_pivoted hpc h.row_lt e (height_of_column? hpc)⟩
  rw [pivot_succ hcol hp, if_neg (by simp [hne, Scalar.isFinite]), coeff_of_column? hpc]

theorem IsPivot.coeff_skipped {prec : Rat} {row col : Nat} {t t' : Tableau Rat}
    (h : IsPivot prec row col t t') {j : Nat} (hj : j ≠ col) (hzero : t.coeff j row = 0) (k : Nat) :
    t'.coeff j k = t.coeff j k := by
  unfold coeff entry?
  rw [h.skipped j hj hzero]

/-- **All entries after a pivot at once**: those of the columns that were
left alone agree with the formula as they are. -/
theorem IsPivot.coeff_eq {prec : Rat} {row col : Nat} {t t' : Tableau Rat}
    (h : IsPivot prec row col t t') (j k : Nat) :
    t'.coeff j k = if j ≠ col ∧ t.coeff j row = 0 then t.pivotEntry row col j k
      else Scalar.snap prec (t.pivotEntry row col j k) := by
  split
  next hskip =>
    obtain ⟨hj, hzero⟩ := hskip
    rw [pivotEntry_of_zero hj hzero, h.coeff_skipped hj hzero]
  next hchanged =>
    apply h.entry
    by_contra hskip
    rw [not_or, not_not] at hskip
    exact hchanged hskip

/-- Without snapping the formula holds everywhere. -/
theorem IsPivot.coeff_exact {row col : Nat} {t t' : Tableau Rat} (h : IsPivot 0 row col t t')
    (j k : Nat) : t'.coeff j k = t.pivotEntry row col j k := by
  rw [h.coeff_eq, Scalar.snap_zero_prec, ite_self]

/-- **Snapping moves an entry by at most `prec`.** -/
theorem IsPivot.abs_coeff_sub_le {prec : Rat} (hprec : 0 ≤ prec) {row col : Nat}
    {t t' : Tableau Rat} (h : IsPivot prec row col t t') (j k : Nat) :
    |t'.coeff j k - t.pivotEntry row col j k| ≤ prec := by
  rw [h.coeff_eq]
  split
  · rw [sub_self, abs_zero]
    exact hprec
  · exact Scalar.abs_snap_sub_le hprec _

end Tableau

/-! ## §4. Fused and plain. -/

/-- Over the rationals an elimination is its threshold. -/
theorem Column.eliminated_congr {e e' : Elimination Rat} (h : e.prec = e'.prec) (pivot : Rat)
    (row : Nat) (pc c : Column Rat) :
    eliminated e pivot row pc c = eliminated e' pivot row pc c := by
  have hentry : e.entry pivot = e'.entry pivot := by
    funext own v p
    rw [e.entry_rat, e'.entry_rat, h]
  unfold eliminated
  rw [hentry, h]

/-- **One pivot is the same, fused or plain**, also where it is refused. -/
theorem Tableau.pivot_congr {e e' : Elimination Rat} (h : e.prec = e'.prec) (t : Tableau Rat)
    (row col : Nat) : t.pivot e row col = t.pivot e' row col := by
  have hexchanged : ∀ p c, Column.exchanged e p row c = Column.exchanged e' p row c := by
    intro p c
    unfold Column.exchanged
    rw [h]
  unfold pivot pivoted
  simp only [Column.eliminated_congr h, hexchanged]

section

variable {ω γ : Type}

/-- The settings with products fused, or not. -/
def Settings.fuse (s : Settings ω) (fused : Bool) : Settings ω := { s with fused := fused }

/-- The loop with products fused, or not. -/
def Loop.fuse (loop : Loop ω γ) (fused : Bool) : Loop ω γ :=
  { loop with settings := loop.settings.fuse fused }

/-- What an invocation left, with products fused from there on, or not. -/
def Ran.fuse {τ : Type} (ran : Ran ω τ γ) (fused : Bool) : Ran ω τ γ :=
  { ran with loop := ran.loop.fuse fused }

variable [Element ω Rat]

theorem Walk.make_fuse (s : Settings ω) (fused : Bool) (w : Walk Rat γ) (c : Choice Rat) :
    w.make (s.fuse fused) c = w.make s c := by
  have hpivot : w.dictionary.tableau.pivot ((s.fuse fused).elimination Rat) c.row c.col
      = w.dictionary.tableau.pivot (s.elimination Rat) c.row c.col := by
    apply Tableau.pivot_congr
    rfl
  unfold make settle
  rw [hpivot]
  rfl

variable [Source γ]

theorem Walk.step_fuse (s : Settings ω) (fused : Bool) (w : Walk Rat γ) :
    w.step (s.fuse fused) = w.step s := by
  unfold step
  simp only [make_fuse]
  rfl

namespace Invocation

theorem pass_fuse (terms : Terms ω) (fused : Bool) (i : Invocation ω Rat γ) :
    pass { terms with settings := terms.settings.fuse fused } i = pass terms i := by
  unfold pass
  dsimp only
  rw [Walk.step_fuse]
  rfl

/-- **All passes of an invocation are the same, fused or plain.** -/
theorem passes_fuse (terms : Terms ω) (fused : Bool) (room : Nat) :
    ∀ i : Invocation ω Rat γ,
      passes { terms with settings := terms.settings.fuse fused } room i = passes terms room i := by
  induction room with
  | zero => intro i; rfl
  | succ room ih =>
      intro i
      unfold passes
      simp only [pass_fuse, ih]

end Invocation

/-- **A run is the same, fused or plain**: its events, the dictionary and the
source that it leaves, its counters and its outcome. -/
theorem Loop.run_fuse (loop : Loop ω γ) (fused : Bool) (clock : Nat → Bool) (d : Dictionary Rat) :
    (loop.fuse fused).run clock d = (loop.run clock d).fuse fused := by
  obtain ⟨settings, tracing, source, shared, totalSteps, invocations⟩ := loop
  have hpasses : ∀ limit (i : Invocation ω Rat γ),
      Invocation.run ⟨settings.fuse fused, limit, clock⟩ i
        = Invocation.run ⟨settings, limit, clock⟩ i := by
    intro limit i
    exact Invocation.passes_fuse ⟨settings, limit, clock⟩ fused _ i
  have hdraw : (settings.fuse fused).budget.draw source = settings.budget.draw source := rfl
  unfold run close fuse
  dsimp only [walk]
  rw [hdraw]
  by_cases hcount : UInt64.size ≤ invocations + 1
  · rw [if_pos hcount, if_pos hcount]
    rfl
  · rw [if_neg hcount, if_neg hcount]
    cases settings.budget.draw source with
    | error cause => rfl
    | ok drawn =>
        obtain ⟨limit, after⟩ := drawn
        dsimp only
        rw [hpasses]
        generalize Invocation.run ⟨settings, limit, clock⟩
          (⟨⟨d, after, totalSteps⟩, 0, shared⟩ : Invocation ω Rat γ) = ended
        cases ended.result with
        | error fault => rfl
        | ok status => rfl

end

/-! ## §5. The update. -/

/-- **A PIVOT COMPUTES THE DOCUMENTED FORMULA, FUSED OR PLAIN.**  Over the
rationals:

  * at a constraint row and a variable column with an element that is not
    zero, both ways return the element and the same tableau; it has the
    shape of the old one, its entries are given by the formula and snapped,
    and it is no further than `prec` from the tableau of the same pivot
    without snapping;
  * a run with products fused and one without coincide in all that they
    leave behind, but for that setting. -/
theorem Tableau.pivot_isPivot (ω : Type) [Element ω Rat] :
    (∀ (t : Tableau Rat) (row col : Nat), t.Pivotable row col → ∀ prec, 0 ≤ prec →
        ∃ t' unsnapped : Tableau Rat,
          (∀ fused, t.pivot ⟨prec, fused⟩ row col = .ok (t.coeff col row, t'))
            ∧ (∀ fused, t.pivot ⟨0, fused⟩ row col = .ok (t.coeff col row, unsnapped))
            ∧ IsPivot prec row col t t'
            ∧ ∃ gap, t'.maxAbsDiff unsnapped = .ok gap ∧ gap ≤ prec)
      ∧ ∀ (γ : Type) [Source γ] (loop : Loop ω γ) (clock : Nat → Bool) (d : Dictionary Rat)
          (fused : Bool), (loop.fuse fused).run clock d = (loop.run clock d).fuse fused := by
  constructor
  · intro t row col h prec hprec
    obtain ⟨t', hpivot, hformula⟩ := h.exists_pivot ⟨prec, true⟩
    obtain ⟨unsnapped, hpivot₀, hformula₀⟩ := h.exists_pivot ⟨0, true⟩
    refine ⟨t', unsnapped, ?_, ?_, hformula, ?_⟩
    · intro fused
      rw [← hpivot]
      apply pivot_congr
      rfl
    · intro fused
      rw [← hpivot₀]
      apply pivot_congr
      rfl
    · apply maxAbsDiff_le
      · rw [hformula.rows, hformula₀.rows]
      · rw [hformula.cols, hformula₀.cols]
      · exact hprec
      · intro j k
        rw [hformula₀.coeff_exact]
        exact hformula.abs_coeff_sub_le hprec j k
  · intro γ _ loop clock d fused
    exact loop.run_fuse fused clock d

/-- A column with a zero in row 1, and one with an entry in row 2 that
almost vanishes when column 1 is exchanged with row 1. -/
def Tableau.eighths : Tableau Rat :=
  ⟨⟨0, [2, -7/8]⟩, [⟨1, [2, -1]⟩, ⟨3, [0, 5]⟩], by decide⟩

/-- The entry of row 2 becomes zero, the pivot column is divided, and the
last column is left alone. -/
theorem Tableau.pivot_isPivot_eighths :
    ∃ t', (∀ fused, eighths.pivot ⟨1/4, fused⟩ 1 1 = .ok (2, t')) ∧ t'.coeff 0 2 = 0
      ∧ t'.coeff 1 0 = 1/2 ∧ t'.column? 2 = some ⟨3, [0, 5]⟩ := by
  have hplace : eighths.Pivotable 1 1 := by decide +kernel
  obtain ⟨t', -, hpivot, -, hformula, -⟩ :=
    (Tableau.pivot_isPivot Rat).1 eighths 1 1 hplace (1/4) (by norm_num)
  refine ⟨t', hpivot, ?_, ?_, ?_⟩
  · rw [hformula.entry 0 2 (.inr (by decide +kernel))]
    decide +kernel
  · rw [hformula.entry 1 0 (.inl rfl)]
    decide +kernel
  · rw [hformula.skipped 2 (by decide) (by decide +kernel)]
    rfl

end DenseSimplex
