/-
  DenseSimplex.Proofs.LinearSystem
  ────────────────────────────────
  **THE LINEAR SYSTEM THAT A DICTIONARY STANDS FOR.**

  An assignment gives a value to every variable.  It solves a dictionary,
  with objective value `z`, if every row of the tableau holds as an
  equation:

      x (left k)  =  rhs k + Σ_r  column r k · x (right r)
      z           =  rhs 0 + Σ_r  column r 0 · x (right r)

  (`Dictionary.Solves`).  Only the values of labels matter.  What a pivot
  does is governed by the residual of the pivot row,

      δ  =  x leaving  -  value of the pivot row,

  for every assignment `x`, solution or not: the new pivot row has the
  value `x entering + δ / p`, and every other row gains `pc k / p · δ`
  (`Place.rowValue_exchanged`).  So the exchanged system has the same
  solutions, and forgetting a column restricts them to those in which its
  variable is zero.  Such restrictions compose (`Dictionary.Restricts`),
  along the moves of a history.
-/
import DenseSimplex.Proofs.Exact
import DenseSimplex.Proofs.Transitions

namespace DenseSimplex

namespace Dictionary

/-! ## §1. Rows as linear forms. -/

/-- The variable columns, each with its variable. -/
def terms (d : Dictionary Rat) : List (Int × Column Rat) := d.right.zip d.tableau.columns

/-- The part of a row that depends on the variables of some columns. -/
def termSum (ts : List (Int × Column Rat)) (x : Int → Rat) (row : Nat) : Rat :=
  (ts.map fun t => t.2.coeff row * x t.1).sum

/-- The value of a row under an assignment; row 0 is the objective. -/
def rowValue (d : Dictionary Rat) (x : Int → Rat) (row : Nat) : Rat :=
  d.tableau.rhs.coeff row + termSum d.terms x row

/-- **An assignment solves a dictionary**, with an objective value, if all
its rows hold. -/
structure Solves (d : Dictionary Rat) (x : Int → Rat) (z : Rat) : Prop where
  row : ∀ k id, d.left[k]? = some id → x id = d.rowValue x (k + 1)
  objective : z = d.rowValue x 0

theorem termSum_cons (t : Int × Column Rat) (ts : List (Int × Column Rat)) (x : Int → Rat)
    (row : Nat) : termSum (t :: ts) x row = t.2.coeff row * x t.1 + termSum ts x row := by
  simp [termSum]

theorem fst_mem_of_mem_terms {d : Dictionary Rat} {t : Int × Column Rat} (h : t ∈ d.terms) :
    t.1 ∈ d.right := (List.of_mem_zip h).1

theorem snd_mem_of_mem_terms {d : Dictionary Rat} {t : Int × Column Rat} (h : t ∈ d.terms) :
    t.2 ∈ d.tableau.columns := (List.of_mem_zip h).2

theorem rowValue_congr {d : Dictionary Rat} {x y : Int → Rat} (h : ∀ id ∈ d.right, x id = y id)
    (row : Nat) : d.rowValue x row = d.rowValue y row := by
  unfold rowValue termSum
  congr 2
  apply List.map_congr_left
  intro t ht
  rw [h t.1 (fst_mem_of_mem_terms ht)]

/-- Whether an assignment solves a dictionary depends on the labels
only. -/
theorem Solves.congr {d : Dictionary Rat} {x y : Int → Rat} {z : Rat} (h : d.Solves x z)
    (hxy : ∀ id ∈ d.labels, x id = y id) : d.Solves y z := by
  have hright : ∀ id ∈ d.right, x id = y id := fun id hid => hxy id (List.mem_append_right _ hid)
  refine ⟨fun k id hid => ?_, ?_⟩
  · rw [← hxy id (List.mem_append_left _ (List.mem_of_getElem? hid)), h.row k id hid]
    exact rowValue_congr hright _
  · rw [h.objective]
    exact rowValue_congr hright 0

/-! ## §2. Restricted systems. -/

/-- **One system restricts another** to the solutions in which the
variables in `gone` are zero, as far as its labels see them. -/
def Restricts (d' : Dictionary Rat) (gone : List Int) (d : Dictionary Rat) : Prop :=
  ∀ x z, d'.Solves x z ↔
    ∃ y, d.Solves y z ∧ (∀ id ∈ gone, y id = 0) ∧ ∀ id ∈ d'.labels, y id = x id

theorem Restricts.of_solves_iff {d d' : Dictionary Rat}
    (h : ∀ x z, d'.Solves x z ↔ d.Solves x z) : d'.Restricts [] d := by
  intro x z
  constructor
  · intro hx
    exact ⟨x, (h x z).1 hx, by simp, fun _ _ => rfl⟩
  · intro hx
    obtain ⟨y, hy, -, hagree⟩ := hx
    exact Solves.congr ((h y z).2 hy) hagree

/-- **Restrictions compose**, where the middle labels are those that are
left and those that go. -/
theorem Restricts.trans {d₀ d d' : Dictionary Rat} {ids ids' : List Int}
    (h : d.Restricts ids d₀) (h' : d'.Restricts ids' d)
    (hlabels : d.labels.Perm (ids' ++ d'.labels)) : d'.Restricts (ids ++ ids') d₀ := by
  intro x z
  constructor
  · intro hx
    obtain ⟨y, hy, hgone, hagree⟩ := (h' x z).1 hx
    obtain ⟨w, hw, hbefore, hsame⟩ := (h y z).1 hy
    refine ⟨w, hw, fun id hid => ?_, fun id hid => ?_⟩
    · rcases List.mem_append.1 hid with hid | hid
      · exact hbefore id hid
      · rw [hsame id (hlabels.mem_iff.2 (List.mem_append_left _ hid)), hgone id hid]
    · rw [hsame id (hlabels.mem_iff.2 (List.mem_append_right _ hid)), hagree id hid]
  · intro hx
    -- the first solution is one of the middle system as well
    obtain ⟨w, hw, hgone, hagree⟩ := hx
    have hmiddle : d.Solves w z :=
      (h w z).2 ⟨w, hw, fun id hid => hgone id (List.mem_append_left _ hid), fun _ _ => rfl⟩
    exact (h' x z).2 ⟨w, hmiddle, fun id hid => hgone id (List.mem_append_right _ hid), hagree⟩

/-! ## §3. Forgetting a column. -/

theorem terms_forgotten (d : Dictionary Rat) (j : Nat) :
    (d.forgotten j).terms = d.terms.eraseIdx j := by
  apply List.ext_getElem?
  intro i
  show ((d.right.eraseIdx j).zip (d.tableau.columns.eraseIdx j))[i]?
    = ((d.right.zip d.tableau.columns).eraseIdx j)[i]?
  by_cases hi : i < j
  · simp only [List.zip, List.getElem?_zipWith, List.getElem?_eraseIdx, hi, if_true]
  · simp only [List.zip, List.getElem?_zipWith, List.getElem?_eraseIdx, hi, if_false]

/-- A row is its value without a column, plus what the column adds. -/
theorem rowValue_eq_forgotten {d : Dictionary Rat} {j : Nat} {id : Int} {c : Column Rat}
    (hid : d.right[j]? = some id) (hc : d.tableau.columns[j]? = some c) (x : Int → Rat)
    (row : Nat) : d.rowValue x row = (d.forgotten j).rowValue x row + c.coeff row * x id := by
  have hterm : d.terms[j]? = some (id, c) := by
    rw [terms, List.getElem?_zip_eq_some]
    exact ⟨hid, hc⟩
  obtain ⟨hj, hget⟩ := List.getElem?_eq_some_iff.1 hterm
  -- a sum does not depend on the order of its terms
  have hperm : d.terms.Perm ((id, c) :: d.terms.eraseIdx j) := by
    rw [← hget]
    exact (List.getElem_cons_eraseIdx_perm hj).symm
  have hsum : termSum d.terms x row = c.coeff row * x id + termSum (d.terms.eraseIdx j) x row := by
    rw [← termSum_cons (id, c)]
    exact (hperm.map _).sum_eq
  unfold rowValue
  rw [hsum, terms_forgotten]
  show _ = d.tableau.rhs.coeff row + _ + _
  ring

/-- **Forgetting a column keeps the solutions in which its variable is
zero.** -/
theorem restricts_forgotten {d : Dictionary Rat} (hd : d.labels.Nodup) {j : Nat} {id : Int}
    {c : Column Rat} (hid : d.right[j]? = some id) (hc : d.tableau.columns[j]? = some c) :
    (d.forgotten j).Restricts [id] d := by
  have hfresh : id ∉ (d.forgotten j).labels := not_mem_labels_forgotten hd hid
  -- with the variable zero, both dictionaries have the same rows
  have hsame : ∀ y z, y id = 0 → ((d.forgotten j).Solves y z ↔ d.Solves y z) := by
    intro y z hy
    have hvalue : ∀ row, d.rowValue y row = (d.forgotten j).rowValue y row := by
      intro row
      rw [rowValue_eq_forgotten hid hc, hy, mul_zero, add_zero]
    constructor
    · intro h
      refine ⟨fun k i hi => ?_, ?_⟩
      · rw [hvalue]
        exact h.row k i hi
      · rw [hvalue]
        exact h.objective
    · intro h
      refine ⟨fun k i hi => ?_, ?_⟩
      · rw [← hvalue]
        exact h.row k i hi
      · rw [← hvalue]
        exact h.objective
  intro x z
  simp only [List.mem_singleton, forall_eq]
  constructor
  -- the forgotten variable is no label any more, so it can be set to zero
  · intro h
    have hagree : ∀ i ∈ (d.forgotten j).labels, Function.update x id 0 i = x i := by
      intro i hi
      apply Function.update_of_ne
      rintro rfl
      exact hfresh hi
    have hzero : Function.update x id 0 id = 0 := Function.update_self _ _ _
    have h' := h.congr fun i hi => (hagree i hi).symm
    exact ⟨Function.update x id 0, (hsame _ z hzero).1 h', hzero, hagree⟩
  · intro h
    obtain ⟨y, hy, hzero, hagree⟩ := h
    exact Solves.congr ((hsame y z hzero).2 hy) hagree

/-! ## §4. A pivot. -/

namespace Place

variable {d : Dictionary Rat} {e : Elimination Rat}

/-- A column other than the pivot column after the pivot. -/
def eliminate (q : Place d) (e : Elimination Rat) (c : Column Rat) : Column Rat :=
  Column.eliminated e q.element (q.row + 1) q.column c

theorem rhs_tableau (q : Place d) (e : Elimination Rat) :
    (q.tableau e).rhs = q.eliminate e d.tableau.rhs := rfl

theorem columns_tableau_at (q : Place d) (e : Elimination Rat) (j : Nat) :
    (q.tableau e).columns[j]? = (d.tableau.columns[j]?).map fun c =>
      if j = q.col then Column.exchanged e q.element (q.row + 1) c else q.eliminate e c := by
  show (d.tableau.columns.mapIdx _)[j]? = _
  rw [List.getElem?_mapIdx]
  simp only [Nat.add_right_cancel_iff]
  rfl

theorem coeff_column (q : Place d) : q.column.coeff (q.row + 1) = q.element :=
  Column.coeff_succ_of_getElem? q.element_at

theorem coeff_eliminate (q : Place d) (he : e.prec = 0) {c : Column Rat}
    (hc : c.height = d.tableau.height) (k : Nat) :
    (q.eliminate e c).coeff k =
      if k = q.row + 1 then -c.coeff (q.row + 1) / q.element
      else c.coeff k - q.column.coeff k * c.coeff (q.row + 1) / q.element :=
  Column.coeff_eliminated_exact he _ (hc.trans q.column_height.symm)
    (by have := q.row_lt; omega) k

/-- Apart from the pivot column, a pivot changes columns one by one. -/
theorem terms_forgotten_exchanged (q : Place d) (e : Elimination Rat) :
    ((q.exchanged e).forgotten q.col).terms
      = (d.forgotten q.col).terms.map (Prod.map id (q.eliminate e)) := by
  have hright : (d.right.set q.col q.leaving).eraseIdx q.col = d.right.eraseIdx q.col :=
    List.eraseIdx_set_eq
  have hcolumns : (q.tableau e).columns.eraseIdx q.col
      = (d.tableau.columns.eraseIdx q.col).map (q.eliminate e) := by
    apply List.ext_getElem?
    intro i
    rw [List.getElem?_map, List.getElem?_eraseIdx, List.getElem?_eraseIdx]
    by_cases hi : i < q.col
    · have hne : i ≠ q.col := by omega
      simp only [hi, if_true, q.columns_tableau_at, hne, if_false]
    · have hne : i + 1 ≠ q.col := by omega
      simp only [hi, q.columns_tableau_at, hne, if_false]
  show ((d.right.set q.col q.leaving).eraseIdx q.col).zip ((q.tableau e).columns.eraseIdx q.col)
    = ((d.right.eraseIdx q.col).zip (d.tableau.columns.eraseIdx q.col)).map _
  rw [hright, hcolumns, List.zip_map_right]

/-- The part of a row that other columns add after the pivot. -/
theorem termSum_eliminate (q : Place d) (he : e.prec = 0) (x : Int → Rat) (k : Nat)
    (ts : List (Int × Column Rat)) (hts : ∀ t ∈ ts, t.2.height = d.tableau.height) :
    termSum (ts.map (Prod.map id (q.eliminate e))) x k =
      if k = q.row + 1 then -termSum ts x (q.row + 1) / q.element
      else termSum ts x k - q.column.coeff k * termSum ts x (q.row + 1) / q.element := by
  induction ts with
  | nil => simp [termSum]
  | cons t ts ih =>
      obtain ⟨ht, hts⟩ := List.forall_mem_cons.1 hts
      rw [List.map_cons, termSum_cons, termSum_cons, termSum_cons, ih hts]
      show (q.eliminate e t.2).coeff k * x t.1 + _ = _
      rw [q.coeff_eliminate he ht]
      split <;> ring

/-- The rows without the pivot column, after the pivot and before it. -/
theorem rowValue_forgotten_exchanged (q : Place d) (he : e.prec = 0) (x : Int → Rat) (k : Nat) :
    ((q.exchanged e).forgotten q.col).rowValue x k =
      if k = q.row + 1 then -(d.forgotten q.col).rowValue x (q.row + 1) / q.element
      else (d.forgotten q.col).rowValue x k
        - q.column.coeff k * (d.forgotten q.col).rowValue x (q.row + 1) / q.element := by
  have hheight : ∀ t ∈ (d.forgotten q.col).terms, t.2.height = d.tableau.height := fun t ht =>
    (d.tableau.erased q.col).uniform _ (snd_mem_of_mem_terms ht)
  unfold rowValue
  rw [q.terms_forgotten_exchanged, q.termSum_eliminate he x k _ hheight]
  show (q.eliminate e d.tableau.rhs).coeff k + _ = _
  rw [q.coeff_eliminate he rfl]
  show _ = if k = q.row + 1 then -(d.tableau.rhs.coeff (q.row + 1) + _) / q.element
    else d.tableau.rhs.coeff k + _ - _ * (d.tableau.rhs.coeff (q.row + 1) + _) / q.element
  split <;> ring

theorem column_exchanged_at (q : Place d) (e : Elimination Rat) :
    (q.exchanged e).tableau.columns[q.col]?
      = some (Column.exchanged e q.element (q.row + 1) q.column) := by
  show (q.tableau e).columns[q.col]? = _
  rw [q.columns_tableau_at, q.column_at]
  simp

/-- How far an assignment is from satisfying the pivot row. -/
def residual (q : Place d) (x : Int → Rat) : Rat := x q.leaving - d.rowValue x (q.row + 1)

/-- **Every row after a pivot**, under any assignment: the pivot row is
solved for the entering variable, and a multiple of its residual is added
to the others. -/
theorem rowValue_exchanged (q : Place d) (he : e.prec = 0) (hp : q.element ≠ 0) (x : Int → Rat)
    (k : Nat) :
    (q.exchanged e).rowValue x k =
      if k = q.row + 1 then x q.entering + q.residual x / q.element
      else d.rowValue x k + q.column.coeff k / q.element * q.residual x := by
  have hrow : q.row + 1 ≤ q.column.height := by
    rw [q.column_height]
    exact q.row_lt
  have hbefore := rowValue_eq_forgotten q.entering_at q.column_at x
  have hpivot := hbefore (q.row + 1)
  rw [q.coeff_column] at hpivot
  -- both sides without the pivot column, and the pivot column by itself
  rw [rowValue_eq_forgotten (q.right_exchanged_at e) (q.column_exchanged_at e),
    q.rowValue_forgotten_exchanged he, Column.coeff_exchanged_exact he _ hrow]
  unfold residual
  split
  · rw [hpivot]
    field_simp
    ring
  · rw [hbefore k, hpivot]
    field_simp
    ring

/-- **A pivot keeps the solutions of the system.** -/
theorem solves_exchanged_iff (q : Place d) (he : e.prec = 0) (hp : q.element ≠ 0)
    (x : Int → Rat) (z : Rat) : (q.exchanged e).Solves x z ↔ d.Solves x z := by
  have hleft : ∀ k, (q.exchanged e).left[k]?
      = if q.row = k then (some q.entering) else d.left[k]? := by
    intro k
    show (d.left.set q.row q.entering)[k]? = _
    rw [List.getElem?_set]
    split
    · rw [if_pos (List.getElem?_eq_some_iff.1 q.leaving_at).1]
    · rfl
  -- with the pivot row satisfied, every other row has the value it had
  have hvalue : q.residual x = 0 → ∀ k, k ≠ q.row + 1 →
      (q.exchanged e).rowValue x k = d.rowValue x k := by
    intro hres k hk
    rw [q.rowValue_exchanged he hp, if_neg hk, hres, mul_zero, add_zero]
  constructor
  · intro h
    -- the new pivot row says that the residual is zero
    have hres : q.residual x = 0 := by
      have hrow := h.row q.row q.entering (by rw [hleft, if_pos rfl])
      rw [q.rowValue_exchanged he hp, if_pos rfl] at hrow
      have hdiv : q.residual x / q.element = 0 := by linarith
      exact (div_eq_zero_iff.1 hdiv).resolve_right hp
    refine ⟨fun k id hid => ?_, ?_⟩
    · by_cases hk : q.row = k
      · subst hk
        rw [q.leaving_at] at hid
        obtain rfl := Option.some.inj hid
        unfold residual at hres
        linarith
      · rw [← hvalue hres (k + 1) (by omega)]
        exact h.row k id (by rw [hleft, if_neg hk]; exact hid)
    · rw [← hvalue hres 0 (by omega)]
      exact h.objective
  · intro h
    have hres : q.residual x = 0 := by
      unfold residual
      rw [h.row q.row q.leaving q.leaving_at, sub_self]
    refine ⟨fun k id hid => ?_, ?_⟩
    · rw [hleft] at hid
      split at hid
      next hk =>
        obtain rfl := Option.some.inj hid
        rw [← hk, q.rowValue_exchanged he hp, if_pos rfl, hres, zero_div, add_zero]
      next hk =>
        rw [hvalue hres (k + 1) (by omega)]
        exact h.row k id hid
    · rw [hvalue hres 0 (by omega)]
      exact h.objective

/-- **The system after a pivot** has the solutions of the system before it
in which the forgotten variable is zero. -/
theorem restricts_result (q : Place d) (hd : d.WellFormed) (he : e.prec = 0)
    (hp : q.element ≠ 0) : (q.result e).Restricts q.eliminated.toList d := by
  have hexchanged : (q.exchanged e).Restricts [] d :=
    Restricts.of_solves_iff (q.solves_exchanged_iff he hp)
  unfold result eliminated
  cases isArtificial q.leaving with
  | false => exact hexchanged
  | true =>
      have hnodup : (q.exchanged e).labels.Nodup :=
        (q.labels_exchanged_perm e).nodup_iff.1 hd.nodup
      have hforgotten :=
        restricts_forgotten hnodup (q.right_exchanged_at e) (q.column_exchanged_at e)
      exact hexchanged.trans hforgotten (labels_forgotten_perm (q.right_exchanged_at e))

end Place

/-! ## §5. Histories. -/

theorem Place.element_ne_zero {d : Dictionary Rat} (q : d.Place)
    (hgood : ¬ (q.element == 0 || !Scalar.isFinite q.element) = true) : q.element ≠ 0 := by
  intro h
  exact hgood (by rw [h]; rfl)

theorem Moves.restricts {s : Settings Rat} {d d' : Dictionary Rat} {r : StepResult Rat}
    (h : d.Moves s r d') (hd : d.WellFormed) (hs : s.prec = 0) :
    d'.Restricts r.eliminations d := by
  cases h with
  | optimal => exact Restricts.of_solves_iff fun _ _ => Iff.rfl
  | unbounded => exact Restricts.of_solves_iff fun _ _ => Iff.rfl
  | pivoted q hq hgood => exact q.restricts_result hd hs (q.element_ne_zero hgood)

/-- **The system after any moves without snapping** has the solutions of
the first system in which the eliminated variables are zero. -/
theorem Reaches.restricts {P : Settings Rat → Prop} (hP : ∀ s, P s → s.prec = 0)
    {d₀ d : Dictionary Rat} {ids : List Int} (h : Reaches P d₀ ids d) (hd : d₀.WellFormed) :
    d.Restricts ids d₀ := by
  induction h with
  | start => exact Restricts.of_solves_iff fun _ _ => Iff.rfl
  | move h hs hm ih =>
      exact ih.trans (hm.restricts (h.wellFormed hd) (hP _ hs)) hm.labels_perm

end Dictionary

/-- **HISTORIES KEEP THE MEANING OF A DICTIONARY.**  Whatever steps and
invocations lead from a valid dictionary to another one, without snapping:
the system of the latter has exactly the solutions of the former in which
the variables eliminated on the way are zero, restricted to the labels that
are left. -/
theorem History.solves_iff_restricted {d₀ d : Dictionary Rat} {ids : List Int}
    (hd : d₀.validate = .ok ()) (h : History (fun s : Settings Rat => s.prec = 0) d₀ ids d)
    (x : Int → Rat) (z : Rat) :
    d.Solves x z ↔
      ∃ y, d₀.Solves y z ∧ (∀ id ∈ ids, y id = 0) ∧ ∀ id ∈ d.labels, y id = x id := by
  have hwf := Dictionary.validate_rat_iff.1 hd
  exact (h.reaches hwf).restricts (fun _ hs => hs) hwf x z

/-- A loop with exact settings whose coins all fall alike. -/
def Loop.exact : Loop Rat (Nat → UInt64) := ⟨.exact, .off, fun _ => 0, none, 0, 0⟩

/-- The equation `x₁ + x₂ = 2`, its artificial variable `-1` in the basis,
and a slack `x₃ = 3 - x₁`. -/
def Dictionary.oneEquation : Dictionary Rat where
  tableau := ⟨⟨-2, [2, 3]⟩, [⟨1, [-1, -1]⟩, ⟨1, [-1, 0]⟩], by decide⟩
  left := [-1, 3]
  right := [1, 2]
  artificials := 1

/-- After an invocation that eliminates the artificial variable, the system
is the equation itself. -/
theorem History.solves_iff_restricted_oneEquation :
    (Loop.exact.run (fun _ => false) Dictionary.oneEquation).result
        = .ok ⟨.feasible, 1, 1, 0, 0⟩
      ∧ ∀ x z, (Loop.exact.run (fun _ => false) Dictionary.oneEquation).dictionary.Solves x z ↔
          ∃ y, Dictionary.oneEquation.Solves y z ∧ (∀ id ∈ [-1], y id = 0)
            ∧ ∀ id ∈ [1, 3, 2], y id = x id := by
  have hrun : (Loop.exact.run (fun _ => false) Dictionary.oneEquation).result
      = .ok ⟨.feasible, 1, 1, 0, 0⟩ := by cbv
  have hids : (Loop.exact.run (fun _ => false) Dictionary.oneEquation).journal.eliminations
      = [-1] := by cbv
  have hlabels : (Loop.exact.run (fun _ => false) Dictionary.oneEquation).dictionary.labels
      = [1, 3, 2] := by cbv
  have hhistory : History (fun s : Settings Rat => s.prec = 0) Dictionary.oneEquation
      ([] ++ (Loop.exact.run (fun _ => false) Dictionary.oneEquation).journal.eliminations)
      (Loop.exact.run (fun _ => false) Dictionary.oneEquation).dictionary :=
    .run .start Loop.exact (by rfl) (fun _ => false) hrun
  have h := History.solves_iff_restricted (by rfl) hhistory
  rw [hids, hlabels] at h
  exact ⟨hrun, h⟩

end DenseSimplex
