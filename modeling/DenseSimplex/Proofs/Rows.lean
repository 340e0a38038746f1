/-
  DenseSimplex.Proofs.Rows
  ────────────────────────
  **A TABLEAU THAT WAS WRITTEN OUT ROW BY ROW.**

  `Tableau.ofRows` lays equally long rows out column after column and cuts
  them up again; unless there are too many entries, this gives a tableau
  (`Tableau.exists_ofRows`).  Cutting undoes concatenation
  (`Column.cut_flatMap`), so what comes out has the entry of row `r` and
  column `c` of the list just there (`Tableau.entry?_ofRows`), and over the
  rationals each row can be read back as a whole:

      rows[r]  =  coefficient r of every column,

  which makes it the linear form `b + Σ v · x` of the row `b :: v`
  (`Dictionary.rowValue_of_row`).
-/
import DenseSimplex.Proofs.LinearSystem

namespace DenseSimplex

/-! ## §1. Cutting. -/

variable {α : Type}

/-- **Cutting undoes concatenation.** -/
theorem Column.cut_flatMap {height : Nat} (columns : List (Column α))
    (h : ∀ c ∈ columns, c.height = height) :
    Column.cut height columns.length (columns.flatMap Column.toList) = columns := by
  induction columns with
  | nil => rfl
  | cons c columns ih =>
      obtain ⟨hc, hrest⟩ := List.forall_mem_cons.1 h
      have hlength : c.entries.length = height := hc
      show (⟨c.objective, (c.entries ++ columns.flatMap Column.toList).take height⟩ : Column α)
        :: Column.cut height columns.length
          ((c.entries ++ columns.flatMap Column.toList).drop height) = c :: columns
      rw [List.take_left' hlength, List.drop_left' hlength, ih hrest]

namespace Tableau

/-- **A buffer of columns is a tableau of these columns.** -/
theorem allColumns_ofBuffer {height width : Nat} {buffer : List α}
    (size : buffer.length = (width + 1) * (height + 1)) {columns : List (Column α)}
    (hcount : columns.length = width + 1) (h : ∀ c ∈ columns, c.height = height)
    (hbuffer : buffer = columns.flatMap Column.toList) :
    (ofBuffer height width buffer size).allColumns = columns := by
  subst hbuffer
  cases columns with
  | nil => cases hcount
  | cons c columns =>
      obtain ⟨hc, hrest⟩ := List.forall_mem_cons.1 h
      have hlength : c.entries.length = height := hc
      have hwidth : columns.length = width := Nat.succ.inj hcount
      show (⟨c.objective, (c.entries ++ columns.flatMap Column.toList).take height⟩ : Column α)
        :: Column.cut height width
          ((c.entries ++ columns.flatMap Column.toList).drop height) = c :: columns
      rw [List.take_left' hlength, List.drop_left' hlength, ← hwidth,
        Column.cut_flatMap columns hrest]

/-! ## §2. Rows. -/

theorem getElem?_filterMap_of_isSome {β : Type} {f : α → Option β} {l : List α}
    (h : ∀ a ∈ l, (f a).isSome = true) (k : Nat) : (l.filterMap f)[k]? = l[k]?.bind f := by
  induction l generalizing k with
  | nil => rfl
  | cons a l ih =>
      obtain ⟨ha, hl⟩ := List.forall_mem_cons.1 h
      obtain ⟨b, hb⟩ := Option.isSome_iff_exists.1 ha
      rw [List.filterMap_cons_some hb]
      cases k with
      | zero => exact hb.symm
      | succ k => exact ih hl k

/-- A column of equally long rows, under the entry of the first one. -/
def columnOf (rest : List (List α)) (c : Nat) (v : α) : Column α := ⟨v, rest.filterMap (·[c]?)⟩

theorem height_columnOf {rest : List (List α)} {c : Nat} (h : ∀ row ∈ rest, c < row.length)
    (v : α) : (columnOf rest c v).height = rest.length := by
  show (rest.filterMap (·[c]?)).length = rest.length
  rw [List.length_filterMap_eq_countP, List.countP_eq_length]
  intro row hrow
  rw [List.getElem?_eq_getElem (h row hrow)]
  rfl

theorem transposed_eq {first : List α} (rest : List (List α)) :
    transposed first.length (first :: rest)
      = (first.mapIdx (columnOf rest)).flatMap Column.toList := by
  have hrange : List.range first.length = first.zipIdx.map Prod.snd := by
    rw [List.zipIdx_map_snd, List.range_eq_range']
  unfold transposed
  rw [hrange, List.mapIdx_eq_zipIdx_map, List.flatMap_map, List.flatMap_map]
  apply List.flatMap_congr
  intro p hp
  obtain ⟨v, c⟩ := p
  have hv : first[c]? = some v := List.mk_mem_zipIdx_iff_getElem?.1 hp
  show (first :: rest).filterMap (fun row => row[c]?) = v :: rest.filterMap (fun row => row[c]?)
  rw [List.filterMap_cons, hv]

theorem length_transposed {first : List α} {rest : List (List α)}
    (h : ∀ row ∈ rest, row.length = first.length) :
    (transposed first.length (first :: rest)).length = (first :: rest).length * first.length := by
  have hcolumns : (first.mapIdx (columnOf rest)).map (fun c => c.toList.length)
      = List.replicate first.length (rest.length + 1) := by
    rw [List.eq_replicate_iff]
    refine ⟨by rw [List.length_map, List.length_mapIdx], ?_⟩
    rw [List.forall_mem_map]
    intro c hc
    obtain ⟨j, hj, rfl⟩ := List.mem_mapIdx.1 hc
    have hheight := height_columnOf (fun row hrow => by rw [h row hrow]; exact hj) first[j]
    exact congrArg (· + 1) hheight
  rw [transposed_eq, List.length_flatMap, hcolumns, List.sum_replicate, smul_eq_mul, Nat.mul_comm,
    List.length_cons]

/-- **Equally long rows are a tableau**, if their entries are not too
many. -/
theorem exists_ofRows {first : List α} {rest : List (List α)} (hpos : 0 < first.length)
    (h : ∀ row ∈ rest, row.length = first.length)
    (hsize : (first :: rest).length * first.length < UInt64.size) :
    ∃ t, ofRows (first :: rest) = .ok t := by
  have hnone : (first :: rest).find? (fun row => row.length != first.length) = none := by
    rw [List.find?_eq_none, List.forall_mem_cons]
    exact ⟨by simp, fun row hrow => by simp [h row hrow]⟩
  have hshape : ¬ ((first :: rest).length = 0 ∨ first.length = 0) := by
    rw [List.length_cons]
    omega
  have hfits : ¬ UInt64.size ≤ (first :: rest).length * first.length := not_le.2 hsize
  unfold ofRows
  simp only [firstLength, List.head?_cons, Option.map_some, Option.getD_some, hnone]
  unfold ofColumnMajor
  rw [dif_neg hshape, if_neg hfits, dif_pos (length_transposed h)]
  exact ⟨_, rfl⟩

/-- **What rows become**: each column has an entry of the first row as its
objective entry and entries of the other rows below it. -/
theorem ofRows_spec {first : List α} {rest : List (List α)} {t : Tableau α}
    (h : ofRows (first :: rest) = .ok t) :
    (∀ row ∈ rest, row.length = first.length)
      ∧ t.allColumns = first.mapIdx (columnOf rest) := by
  unfold ofRows at h
  dsimp only at h
  split at h
  · split at h
    · cases h
    · cases h
  next hnone =>
    have hlength : ∀ row ∈ rest, row.length = first.length := by
      intro row hrow
      have hfound := List.find?_eq_none.1 hnone row (List.mem_cons_of_mem _ hrow)
      simpa [firstLength] using hfound
    refine ⟨hlength, ?_⟩
    unfold ofColumnMajor at h
    split at h
    · cases h
    next hshape =>
      split at h
      · cases h
      · split at h
        next hsize =>
          cases h
          have hpos : first.length ≠ 0 := fun hzero => hshape (.inr hzero)
          apply allColumns_ofBuffer _ _ _ (transposed_eq rest)
          · rw [List.length_mapIdx]
            exact (Nat.succ_pred_eq_of_ne_zero hpos).symm
          · intro c hc
            obtain ⟨j, hj, rfl⟩ := List.mem_mapIdx.1 hc
            apply height_columnOf
            intro row hrow
            rw [hlength row hrow]
            exact hj
        · cases h

/-- **The entries are those of the rows.** -/
theorem entry?_ofRows {rows : List (List α)} {t : Tableau α} (h : ofRows rows = .ok t)
    (c r : Nat) : t.entry? c r = rows[r]?.bind (·[c]?) := by
  cases rows with
  | nil => cases h
  | cons first rest =>
      obtain ⟨hlength, hcolumns⟩ := ofRows_spec h
      show (t.allColumns[c]?).bind (·.get? r) = _
      rw [hcolumns, List.getElem?_mapIdx]
      by_cases hc : c < first.length
      · rw [List.getElem?_eq_getElem hc]
        cases r with
        | zero => exact (List.getElem?_eq_getElem hc).symm
        | succ k =>
            show (rest.filterMap (·[c]?))[k]? = rest[k]?.bind (·[c]?)
            apply getElem?_filterMap_of_isSome
            intro row hrow
            rw [List.getElem?_eq_getElem (by rw [hlength row hrow]; exact hc)]
            rfl
      -- beyond the last column there is nothing in any row
      · rw [List.getElem?_eq_none (not_lt.1 hc)]
        show none = _
        symm
        rw [Option.bind_eq_none_iff]
        intro row hrow
        apply List.getElem?_eq_none
        rcases List.mem_cons.1 (List.mem_of_getElem? hrow) with rfl | hrow
        · exact not_lt.1 hc
        · rw [hlength row hrow]
          exact not_lt.1 hc

theorem length_of_ofRows {rows : List (List α)} {t : Tableau α} (h : ofRows rows = .ok t) :
    rows.length = t.height + 1 ∧ ∀ row ∈ rows, row.length = t.width + 1 := by
  cases rows with
  | nil => cases h
  | cons first rest =>
      obtain ⟨hlength, hcolumns⟩ := ofRows_spec h
      have hfirst : first.length = t.width + 1 := by
        rw [← List.length_mapIdx (f := columnOf rest), ← hcolumns]
        rfl
      refine ⟨?_, List.forall_mem_cons.2 ⟨hfirst, fun row hrow => ?_⟩⟩
      · have hrhs : t.rhs ∈ first.mapIdx (columnOf rest) := by
          rw [← hcolumns]
          exact List.mem_cons_self
        obtain ⟨j, hj, hj'⟩ := List.mem_mapIdx.1 hrhs
        have hheight : t.height = rest.length := by
          show t.rhs.height = _
          rw [← hj']
          apply height_columnOf
          intro row hrow
          rw [hlength row hrow]
          exact hj
        rw [hheight, List.length_cons]
      · rw [hlength row hrow, hfirst]

/-- **Each row can be read back.** -/
theorem map_coeff_ofRows {rows : List (List Rat)} {t : Tableau Rat} (h : ofRows rows = .ok t)
    {r : Nat} {row : List Rat} (hrow : rows[r]? = some row) :
    t.allColumns.map (·.coeff r) = row := by
  have hwidth : row.length = t.width + 1 :=
    (length_of_ofRows h).2 row (List.mem_of_getElem? hrow)
  apply List.ext_getElem
  · rw [List.length_map, hwidth]
    rfl
  · intro c hc hc'
    have hentry := entry?_ofRows h c r
    rw [hrow] at hentry
    rw [List.length_map] at hc
    rw [List.getElem_map]
    show ((t.allColumns[c]).get? r).getD 0 = row[c]
    have hget : (t.allColumns[c]).get? r = some row[c] := by
      have hcolumn : t.entry? c r = (t.allColumns[c]).get? r := by
        show (t.allColumns[c]?).bind _ = _
        rw [List.getElem?_eq_getElem hc]
        rfl
      rw [← hcolumn, hentry]
      exact List.getElem?_eq_getElem hc'
    rw [hget]
    rfl

/-- The entries of a column, from the rows. -/
theorem coeff_ofRows {rows : List (List Rat)} {t : Tableau Rat} (h : ofRows rows = .ok t)
    {j : Nat} {c : Column Rat} (hc : t.allColumns[j]? = some c) {r : Nat} {row : List Rat}
    (hrow : rows[r]? = some row) : c.coeff r = row.getD j 0 := by
  rw [← map_coeff_ofRows h hrow, List.getD_eq_getElem?_getD, List.getElem?_map, hc]
  rfl

end Tableau

/-! ## §3. Linear forms. -/

/-- **A row is the linear form that it was written as.** -/
theorem Dictionary.rowValue_of_row {d : Dictionary Rat} {r : Nat} {b : Rat} {v : List Rat}
    (hrow : d.tableau.allColumns.map (·.coeff r) = b :: v) (x : Int → Rat) :
    d.rowValue x r = b + (List.zipWith (fun t id => t * x id) v d.right).sum := by
  obtain ⟨hb, hv⟩ : d.tableau.rhs.coeff r = b ∧ d.tableau.columns.map (·.coeff r) = v :=
    List.cons.inj hrow
  have hterms : d.terms.map (fun t => t.2.coeff r * x t.1)
      = List.zipWith (fun t id => t * x id) v d.right := by
    rw [← hv, List.zipWith_map_left, Dictionary.terms, List.zip, List.map_zipWith]
    exact List.zipWith_comm
  show d.tableau.rhs.coeff r + (d.terms.map fun t => t.2.coeff r * x t.1).sum = _
  rw [hb, hterms]

end DenseSimplex
