/-
  DenseSimplex.Proofs.WellFormed
  ──────────────────────────────
  **WELL-FORMED DICTIONARIES, AND WHAT A PIVOT DOES TO THE LABELS.**

  `WellFormed` collects the checks of `validate` that do not look at the
  entries:

      validate d = ok   ↔   WellFormed d  ∧  no entry is infinite or
                                             not a number

  They hold for any arithmetic, and so does everything in this module.  A
  pivot takes place at a `Place`: a constraint row and a variable column
  with the element and the two variables found there.  Its effect on a
  dictionary is

      exchanged   the pivot, then the two variables change places,
      result      and the column is forgotten if its variable is now
                  artificial,

  and the labels before are, up to order, the labels after together with
  the forgotten variable (`Place.labels_perm`).
-/
import Mathlib
import DenseSimplex.Step

namespace DenseSimplex

namespace Dictionary

variable {α : Type}

/-! ## §1. The checks. -/

/-- What `validate` asks for apart from finite entries. -/
structure WellFormed (d : Dictionary α) : Prop where
  left_length : d.left.length = d.tableau.height
  right_length : d.right.length = d.tableau.width
  nodup : d.labels.Nodup
  count : countArtificial d.labels = d.artificials
  count_le : d.artificials ≤ d.tableau.width

/-- The scan finds no repeated label exactly if the labels are distinct
and none of them was seen before. -/
theorem firstRepeated_eq_none_iff {seen ids : List Int} :
    firstRepeated seen ids = none ↔ ids.Nodup ∧ ∀ id ∈ ids, id ∉ seen := by
  induction ids generalizing seen with
  | nil => simp [firstRepeated]
  | cons id ids ih =>
      by_cases h : id ∈ seen
      · simp [firstRepeated, h]
      · simp only [firstRepeated, h, if_false, ih, List.nodup_cons, List.mem_cons, not_or,
          forall_eq_or_imp, not_false_eq_true, true_and]
        constructor
        · intro h
          obtain ⟨hnd, hseen⟩ := h
          exact ⟨⟨fun hmem => (hseen id hmem).1 rfl, hnd⟩, fun a ha => (hseen a ha).2⟩
        · intro h
          obtain ⟨⟨hid, hnd⟩, hseen⟩ := h
          refine ⟨hnd, fun a ha => ⟨?_, hseen a ha⟩⟩
          intro haid
          exact hid (haid ▸ ha)

/-- In a well-formed dictionary only an entry can be at fault. -/
theorem WellFormed.validate_eq [Scalar α] {d : Dictionary α} (h : d.WellFormed) :
    d.validate = match d.tableau.findNonFinite with
      | some (col, row) => .error (.nonFinite col row)
      | none => .ok () := by
  have hrep : firstRepeated [] d.labels = none := by
    rw [firstRepeated_eq_none_iff]
    exact ⟨h.nodup, by simp⟩
  unfold validate
  rw [if_neg (by simp [h.left_length]), if_neg (by simp [h.right_length]), hrep]
  cases d.tableau.findNonFinite with
  | none => simp only [h.count, ne_eq, not_true_eq_false, if_false, Nat.not_lt.2 h.count_le]
  | some place => simp only [h.count, ne_eq, not_true_eq_false, if_false, Nat.not_lt.2 h.count_le]

/-- **The checks pass exactly on well-formed dictionaries with finite
entries.** -/
theorem validate_eq_ok_iff [Scalar α] {d : Dictionary α} :
    d.validate = .ok () ↔ d.WellFormed ∧ d.tableau.findNonFinite = none := by
  constructor
  · intro h
    -- each check that is passed gives one condition
    unfold validate at h
    split at h
    · cases h
    next hleft =>
      split at h
      · cases h
      next hright =>
        split at h
        · cases h
        next hrep =>
          split at h
          · cases h
          next hcount =>
            split at h
            · cases h
            next hle =>
              split at h
              · cases h
              next hfin =>
                refine ⟨⟨not_not.1 hleft, not_not.1 hright, ?_, not_not.1 hcount,
                  Nat.not_lt.1 hle⟩, hfin⟩
                exact (firstRepeated_eq_none_iff.1 hrep).1
  · intro h
    obtain ⟨hwf, hfin⟩ := h
    rw [hwf.validate_eq, hfin]

theorem countArtificial_perm {ids ids' : List Int} (h : ids.Perm ids') :
    countArtificial ids = countArtificial ids' :=
  h.countP_eq _

theorem WellFormed.artificials_ne_zero {d : Dictionary α} (h : d.WellFormed) {id : Int}
    (hid : id ∈ d.labels) (hart : isArtificial id = true) : d.artificials ≠ 0 := by
  have hpos : 0 < countArtificial d.labels := List.countP_pos_iff.2 ⟨id, hid, hart⟩
  rw [h.count] at hpos
  omega

theorem WellFormed.not_mem_right {d : Dictionary α} (h : d.WellFormed) {id : Int}
    (hid : id ∈ d.left) : id ∉ d.right := by
  intro hright
  exact (List.nodup_append.1 h.nodup).2.2 id hid id hright rfl

/-- Every column has a variable. -/
theorem WellFormed.exists_right {d : Dictionary α} (h : d.WellFormed) {j : Nat} {c : Column α}
    (hc : d.tableau.columns[j]? = some c) : ∃ id, d.right[j]? = some id := by
  have hj : j < d.right.length := by
    rw [h.right_length]
    exact (List.getElem?_eq_some_iff.1 hc).1
  exact ⟨d.right[j], List.getElem?_eq_getElem hj⟩

end Dictionary

namespace Tableau

variable {α : Type}

theorem exists_column? (t : Tableau α) {j : Nat} (h : j < t.cols) :
    ∃ c, t.column? j = some c :=
  ⟨_, List.getElem?_eq_getElem h⟩

/-- A tableau is its columns. -/
theorem eq_of_allColumns {t u : Tableau α} (h : t.allColumns = u.allColumns) : t = u := by
  obtain ⟨rhs, columns, uniform⟩ := t
  obtain ⟨rhs', columns', uniform'⟩ := u
  obtain ⟨rfl, rfl⟩ : rhs = rhs' ∧ columns = columns' := List.cons.inj h
  rfl

/-- The tableau without its variable column `j`, counted from 0. -/
def erased (t : Tableau α) (j : Nat) : Tableau α where
  rhs := t.rhs
  columns := t.columns.eraseIdx j
  uniform := fun c hc => t.uniform c (List.mem_of_mem_eraseIdx hc)

theorem removeColumn_succ (t : Tableau α) {j : Nat} (h : j < t.width) :
    t.removeColumn (j + 1) = .ok (t.erased j) := by
  unfold removeColumn
  rw [if_pos ⟨by omega, by unfold cols; omega⟩]
  rfl

theorem width_erased (t : Tableau α) {j : Nat} (h : j < t.width) :
    (t.erased j).width = t.width - 1 := by
  unfold width at h ⊢
  exact List.length_eraseIdx_of_lt h

theorem isFinite_of_findNonFinite [Scalar α] {t : Tableau α} (h : t.findNonFinite = none)
    {c : Column α} (hc : c ∈ t.allColumns) {v : α} (hv : v ∈ c.entries) :
    Scalar.isFinite v = true := by
  unfold findNonFinite at h
  rw [Option.map_eq_none_iff, List.findIdx?_eq_none_iff] at h
  have hmem : v ∈ t.toColumnMajor := List.mem_flatMap.2 ⟨c, hc, List.mem_cons_of_mem _ hv⟩
  simpa using h v hmem

/-- Pivoting at a place of the tableau fails only on an element that is
zero, infinite or not a number. -/
theorem pivot_succ [Scalar α] {t : Tableau α} {k j : Nat} {column : Column α} {p : α}
    (hcol : t.columns[j]? = some column) (hp : column.entries[k]? = some p) (e : Elimination α) :
    t.pivot e (k + 1) (j + 1) =
      if p == 0 || !Scalar.isFinite p then .error (.badPivot p (k + 1) (j + 1))
      else .ok (p, t.pivoted e (k + 1) (j + 1) p column
        (t.uniform column (List.mem_of_getElem? hcol))) := by
  have hheight : column.height = t.height := t.uniform column (List.mem_of_getElem? hcol)
  have hk : k < column.height := (List.getElem?_eq_some_iff.1 hp).1
  have hcol' : t.column? (j + 1) = some column := hcol
  have hp' : column.get? (k + 1) = some p := hp
  -- the place exists, so only its element is left to be checked
  unfold pivot
  rw [if_neg (by unfold rows; omega)]
  split
  next hnone => rw [hcol'] at hnone; cases hnone
  next found hfound =>
    obtain rfl : found = column := by rw [hcol'] at hfound; exact (Option.some.inj hfound).symm
    rw [if_neg (by omega), hp']

end Tableau

namespace Dictionary

variable {α : Type}

/-! ## §2. Forgetting a column. -/

/-- The dictionary without its column `j`, counted from 0, which held an
artificial variable. -/
def forgotten (d : Dictionary α) (j : Nat) : Dictionary α :=
  ⟨d.tableau.erased j, d.left, d.right.eraseIdx j, d.artificials - 1⟩

theorem labelAt_succ {ids : List Int} {k : Nat} {id : Int} (h : ids[k]? = some id) :
    (labelAt ids (k + 1) : Except (Fault α) Int) = .ok id := by
  simp only [labelAt, h]

theorem dropColumn_succ {d : Dictionary α} {j : Nat} {id : Int} (hid : d.right[j]? = some id)
    (hart : isArtificial id = true) (hcount : d.artificials ≠ 0) (hj : j < d.tableau.width) :
    d.dropColumn (j + 1) = .ok (d.forgotten j) := by
  unfold dropColumn rightLabel
  rw [labelAt_succ hid]
  simp only [bind, Except.bind, hart, hcount, d.tableau.removeColumn_succ hj]
  rfl

/-- A forgotten column takes its label with it, and no other. -/
theorem labels_forgotten_perm {d : Dictionary α} {j : Nat} {id : Int}
    (hid : d.right[j]? = some id) : d.labels.Perm (id :: (d.forgotten j).labels) := by
  obtain ⟨hj, rfl⟩ := List.getElem?_eq_some_iff.1 hid
  have hright : d.right.Perm (d.right[j] :: d.right.eraseIdx j) :=
    (List.getElem_cons_eraseIdx_perm hj).symm
  exact (hright.append_left d.left).trans List.perm_middle

theorem not_mem_labels_forgotten {d : Dictionary α} (hd : d.labels.Nodup) {j : Nat} {id : Int}
    (hid : d.right[j]? = some id) : id ∉ (d.forgotten j).labels :=
  (List.nodup_cons.1 ((labels_forgotten_perm hid).nodup_iff.1 hd)).1

/-! ## §3. The place of a pivot. -/

/-- A constraint row and a variable column, both counted from 0, with the
column, the element and the two variables found there. -/
structure Place (d : Dictionary α) where
  row : Nat
  col : Nat
  column : Column α
  element : α
  leaving : Int
  entering : Int
  column_at : d.tableau.columns[col]? = some column
  element_at : column.entries[row]? = some element
  leaving_at : d.left[row]? = some leaving
  entering_at : d.right[col]? = some entering

namespace Place

variable {d : Dictionary α}

theorem column_height (q : Place d) : q.column.height = d.tableau.height :=
  d.tableau.uniform _ (List.mem_of_getElem? q.column_at)

theorem row_lt (q : Place d) : q.row < d.tableau.height := by
  rw [← q.column_height]
  exact (List.getElem?_eq_some_iff.1 q.element_at).1

theorem col_lt (q : Place d) : q.col < d.tableau.width :=
  (List.getElem?_eq_some_iff.1 q.column_at).1

variable [Scalar α]

/-- The tableau after the pivot. -/
def tableau (q : Place d) (e : Elimination α) : Tableau α :=
  d.tableau.pivoted e (q.row + 1) (q.col + 1) q.element q.column q.column_height

/-- The dictionary after the pivot, the two variables exchanged. -/
def exchanged (q : Place d) (e : Elimination α) : Dictionary α :=
  ⟨q.tableau e, d.left.set q.row q.entering, d.right.set q.col q.leaving, d.artificials⟩

/-- The dictionary after the pivot; an artificial variable that left the
basis is forgotten. -/
def result (q : Place d) (e : Elimination α) : Dictionary α :=
  if isArtificial q.leaving then (q.exchanged e).forgotten q.col else q.exchanged e

omit [Scalar α] in
/-- The artificial variable that the pivot forgets, if any. -/
def eliminated (q : Place d) : Option Int :=
  if isArtificial q.leaving then some q.leaving else none

theorem width_tableau (q : Place d) (e : Elimination α) :
    (q.tableau e).width = d.tableau.width := Tableau.width_mapColumns _ _ _

theorem height_tableau (q : Place d) (e : Elimination α) :
    (q.tableau e).height = d.tableau.height := Tableau.height_mapColumns _ _ _

theorem right_exchanged_at (q : Place d) (e : Elimination α) :
    (q.exchanged e).right[q.col]? = some q.leaving := by
  have hlt : q.col < d.right.length := (List.getElem?_eq_some_iff.1 q.entering_at).1
  show (d.right.set q.col q.leaving)[q.col]? = some q.leaving
  rw [List.getElem?_set_self hlt]

/-- **The labels after a pivot** are computed as they are told of: the two
variables change places, and an artificial one is dropped. -/
theorem relabelled_eq (q : Place d) (e : Elimination α)
    (hcount : isArtificial q.leaving = true → d.artificials ≠ 0) :
    ({ d with tableau := q.tableau e } : Dictionary α).relabelled (q.row + 1) (q.col + 1)
      = .ok (q.result e, q.eliminated) := by
  have hexchange : ({ d with tableau := q.tableau e } : Dictionary α).exchangeLabels
      (q.row + 1) (q.col + 1) = .ok (q.leaving, q.exchanged e) := by
    unfold exchangeLabels leftLabel rightLabel
    rw [labelAt_succ q.leaving_at, labelAt_succ q.entering_at]
    rfl
  unfold relabelled result eliminated
  rw [hexchange]
  cases hart : isArtificial q.leaving with
  | false => simp [bind, Except.bind, hart, pure, Except.pure]
  | true =>
      have hdrop : (q.exchanged e).dropColumn (q.col + 1) = .ok ((q.exchanged e).forgotten q.col) :=
        dropColumn_succ (q.right_exchanged_at e) hart (hcount hart)
          (by show q.col < (q.tableau e).width; rw [q.width_tableau]; exact q.col_lt)
      simp [bind, Except.bind, hart, hdrop, pure, Except.pure]

theorem labels_exchanged_perm (q : Place d) (e : Elimination α) :
    d.labels.Perm (q.exchanged e).labels := by
  obtain ⟨hk, hleave⟩ := List.getElem?_eq_some_iff.1 q.leaving_at
  obtain ⟨hj, henter⟩ := List.getElem?_eq_some_iff.1 q.entering_at
  have hleft : d.left.Perm (q.leaving :: d.left.eraseIdx q.row) := by
    rw [← hleave]
    exact (List.getElem_cons_eraseIdx_perm hk).symm
  have hright : d.right.Perm (q.entering :: d.right.eraseIdx q.col) := by
    rw [← henter]
    exact (List.getElem_cons_eraseIdx_perm hj).symm
  have hleft' := List.set_perm_cons_eraseIdx hk q.entering
  have hright' := List.set_perm_cons_eraseIdx hj q.leaving
  -- both variables at the front of their lists, they can be swapped
  refine (hleft.append hright).trans (List.Perm.trans ?_ (hleft'.append hright').symm)
  show (q.leaving :: (d.left.eraseIdx q.row ++ q.entering :: d.right.eraseIdx q.col)).Perm
    (q.entering :: (d.left.eraseIdx q.row ++ q.leaving :: d.right.eraseIdx q.col))
  refine (List.perm_middle.cons _).trans ((List.Perm.swap _ _ _).trans ?_)
  exact (List.perm_middle.symm).cons _

/-- **Labels are kept by a pivot**, except for the one that is forgotten. -/
theorem labels_perm (q : Place d) (e : Elimination α) :
    d.labels.Perm (q.eliminated.toList ++ (q.result e).labels) := by
  unfold eliminated result
  cases isArtificial q.leaving with
  | false => exact q.labels_exchanged_perm e
  | true => exact (q.labels_exchanged_perm e).trans (labels_forgotten_perm (q.right_exchanged_at e))

/-- **A pivot leads from one well-formed dictionary to another.** -/
theorem wellFormed_result (q : Place d) (h : d.WellFormed) (e : Elimination α) :
    (q.result e).WellFormed := by
  have hperm := q.labels_perm e
  have hnodup : (q.result e).labels.Nodup := (hperm.nodup_iff.1 h.nodup).of_append_right
  have hcount : countArtificial q.eliminated.toList + countArtificial (q.result e).labels
      = d.artificials := by
    rw [← h.count, countArtificial_perm hperm]
    exact List.countP_append.symm
  have hleft : (d.left.set q.row q.entering).length = (q.tableau e).height := by
    rw [List.length_set, h.left_length, q.height_tableau]
  have hright : (d.right.set q.col q.leaving).length = (q.tableau e).width := by
    rw [List.length_set, h.right_length, q.width_tableau]
  have hwidth := q.width_tableau e
  have hcol := q.col_lt
  have hle := h.count_le
  unfold result eliminated at *
  -- a forgotten variable is counted once, and takes a column with it
  cases hart : isArtificial q.leaving with
  | false =>
      simp only [hart, Bool.false_eq_true, if_false] at hnodup hcount ⊢
      refine ⟨hleft, hright, hnodup, ?_, ?_⟩
      · show countArtificial (q.exchanged e).labels = d.artificials
        rw [← hcount]
        exact (Nat.zero_add _).symm
      · show d.artificials ≤ (q.tableau e).width
        omega
  | true =>
      simp only [hart, if_true] at hnodup hcount ⊢
      have hone : countArtificial (some q.leaving).toList = 1 := by
        simp [countArtificial, hart]
      have hwidth' : ((q.tableau e).erased q.col).width = d.tableau.width - 1 := by
        rw [Tableau.width_erased _ (by omega), hwidth]
      refine ⟨hleft, ?_, hnodup, ?_, ?_⟩
      · show ((d.right.set q.col q.leaving).eraseIdx q.col).length
          = ((q.tableau e).erased q.col).width
        rw [List.length_eraseIdx_of_lt (by omega), hwidth']
        omega
      · show countArtificial ((q.exchanged e).forgotten q.col).labels = d.artificials - 1
        omega
      · show d.artificials - 1 ≤ ((q.tableau e).erased q.col).width
        omega

end Place

end Dictionary

end DenseSimplex
