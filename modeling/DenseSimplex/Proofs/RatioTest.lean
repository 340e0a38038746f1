/-
  DenseSimplex.Proofs.RatioTest
  ─────────────────────────────
  **WHICH ROW LEAVES.**

  The ratio test passes over the rows of a column twice: once for the first
  row of the smallest ratio and for the longest feasible step, and once for
  the first artificial row that may leave instead.  Over the rationals the
  two passes amount to a rule in terms of minima over the bounding rows,

      m      =  min  max rhs 0 / |entry|            `ratio`
      far    =  min  (max rhs 0 + prec) / |entry|   `reach`
      first  =  the first row with ratio m,

  namely: `first` leaves if it is artificial; else the first artificial row
  with a ratio of at most m + ratioTieTol and at most `far`; else `first`
  (`RatioTest.leavingRow_rule`).  Since m itself is at most `far`, an
  artificial row that ties exactly is never passed over for a structural
  one.
-/
import DenseSimplex.Proofs.Feasibility

namespace DenseSimplex

/-! ## §1. The bounding rows in order. -/

namespace BoundingRow

section

variable {α : Type} [Scalar α]

theorem le_row_of_mem_number {row : Nat} {entries rhss : List α} {labels : List Int}
    {b : BoundingRow α} (h : b ∈ number row entries rhss labels) : row ≤ b.row := by
  obtain ⟨k, -, hrow, -⟩ := mem_number.1 h
  omega

theorem pairwise_number (row : Nat) (entries rhss : List α) (labels : List Int) :
    (number row entries rhss labels).Pairwise fun a b => a.row < b.row := by
  induction entries generalizing row rhss labels with
  | nil => exact List.Pairwise.nil
  | cons entry entries ih =>
      cases rhss with
      | nil => exact List.Pairwise.nil
      | cons rhs rhss =>
          cases labels with
          | nil => exact List.Pairwise.nil
          | cons label labels =>
              refine List.pairwise_cons.2 ⟨fun b hb => ?_, ih (row + 1) rhss labels⟩
              exact le_row_of_mem_number hb

/-- The rows that bound a step are numbered in increasing order. -/
theorem pairwise_ofColumn (tol : α) (entries rhss : List α) (labels : List Int) :
    (ofColumn tol entries rhss labels).Pairwise fun a b => a.row < b.row :=
  (pairwise_number 1 entries rhss labels).filter _

omit [Scalar α] in
/-- In rows of increasing numbers, what is found is the first. -/
theorem eq_false_of_find? {rows : List (BoundingRow α)}
    (hrows : rows.Pairwise fun a b => a.row < b.row) {p : BoundingRow α → Bool}
    {b : BoundingRow α} (h : rows.find? p = some b) :
    ∀ r ∈ rows, r.row < b.row → p r = false := by
  obtain ⟨-, before, after, rfl, hbefore⟩ := List.find?_eq_some_iff_append.1 h
  obtain ⟨-, hafter, -⟩ := List.pairwise_append.1 hrows
  intro r hr hlt
  rcases List.mem_append.1 hr with hr | hr
  · simpa using hbefore r hr
  · rcases List.mem_cons.1 hr with rfl | hr
    · omega
    · have := (List.pairwise_cons.1 hafter).1 r hr
      omega

end

/-- Before the tightest row there is none as tight.  The fold starts at a
row `a` that comes before all others. -/
theorem foldl_tighter_lt {rows : List (BoundingRow Rat)} {a m : BoundingRow Rat}
    (hrows : (a :: rows).Pairwise fun a b => a.row < b.row)
    (h : rows.foldl tighter (some a) = some m) :
    ∀ r ∈ a :: rows, r.row < m.row → m.ratio < r.ratio := by
  induction rows generalizing a with
  | nil =>
      cases h
      intro r hr hlt
      rw [List.mem_singleton.1 hr] at hlt
      exact absurd hlt (lt_irrefl _)
  | cons c rows ih =>
      obtain ⟨hfirst, hrest⟩ := List.pairwise_cons.1 hrows
      have hac : a.row < c.row := hfirst c List.mem_cons_self
      have htighter : tighter (some a) c = if c.ratio < a.ratio then some c else some a := rfl
      rw [List.foldl_cons, htighter] at h
      split at h
      -- the next row is tighter, and so is what the fold ends with
      next hlt =>
        intro r hr hrow
        rcases List.mem_cons.1 hr with rfl | hr
        · have hle := (foldl_tighter_ratio_le comparable_rat (fun _ _ => trivial)
            (fun _ _ => trivial) h).1 c rfl
          exact hle.trans_lt hlt
        · exact ih hrest h r hr hrow
      next hge =>
        have hkept : (a :: rows).Pairwise fun a b => a.row < b.row :=
          List.pairwise_cons.2 ⟨fun b hb => hfirst b (List.mem_cons_of_mem _ hb),
            (List.pairwise_cons.1 hrest).2⟩
        intro r hr hrow
        rcases List.mem_cons.1 hr with rfl | hr
        · exact ih hkept h r List.mem_cons_self hrow
        · rcases List.mem_cons.1 hr with rfl | hr
          -- the row that was passed over comes after `a`, so `m` is tighter than `a`
          · have hlt := ih hkept h a List.mem_cons_self (hac.trans hrow)
            exact hlt.trans_le (not_lt.1 hge)
          · exact ih hkept h r (List.mem_cons_of_mem _ hr) hrow

/-- **Before the tightest row there is none as tight.** -/
theorem tightest_lt {rows : List (BoundingRow Rat)}
    (hrows : rows.Pairwise fun a b => a.row < b.row) {m : BoundingRow Rat}
    (h : tightest rows = some m) : ∀ r ∈ rows, r.row < m.row → m.ratio < r.ratio := by
  cases rows with
  | nil => exact fun r hr => absurd hr List.not_mem_nil
  | cons a rows => exact foldl_tighter_lt hrows h

/-- What may replace the tightest row, spelled out. -/
theorem mayReplace_iff {limits : Limits Rat} {rows : List (BoundingRow Rat)}
    {min b : BoundingRow Rat} :
    mayReplace limits rows min b = true ↔ isArtificial b.label = true
      ∧ b.ratio ≤ min.ratio + limits.ratioTieTol ∧ ∀ r ∈ rows, b.ratio ≤ r.reach limits.prec := by
  unfold mayReplace
  rw [Bool.and_eq_true, Bool.and_eq_true, decide_eq_true_iff, respects_feasibleStep_iff, and_assoc,
    sub_le_iff_le_add']

end BoundingRow

/-! ## §2. The rule. -/

/-- A column under test, with the right-hand sides and the variables of its
constraint rows, which are counted from 0 here. -/
structure RatioTest where
  entries : List Rat
  rhs : List Rat
  labels : List Int
  rhs_length : rhs.length = entries.length
  labels_length : labels.length = entries.length

namespace RatioTest

variable (t : RatioTest)

/-- The entry of a row. -/
def entry (k : Nat) : Rat := t.entries.getD k 0

/-- How far the variable of a row is from zero; negative values count as
zero. -/
def room (k : Nat) : Rat := max (t.rhs.getD k 0) 0

/-- The variable of a row. -/
def label (k : Nat) : Int := t.labels.getD k 0

/-- The rows that bound a step. -/
def bounding (tol : Rat) : Set Nat := {k | k < t.entries.length ∧ t.entry k < -tol}

/-- The step at which the variable of a row reaches zero. -/
def ratio (k : Nat) : Rat := t.room k / |t.entry k|

/-- The step at which the variable of a row reaches `-prec`. -/
def reach (prec : Rat) (k : Nat) : Rat := (t.room k + prec) / |t.entry k|

/-- The artificial rows that may leave where the smallest ratio is `m` and
the longest feasible step is `far`. -/
def replacements (limits : Limits Rat) (m far : Rat) : Set Nat :=
  {k ∈ t.bounding limits.pivotTol | isArtificial (t.label k) = true
    ∧ t.ratio k ≤ m + limits.ratioTieTol ∧ t.ratio k ≤ far}

/-- **The row that leaves**, given the smallest ratio, the longest feasible
step and the first row of the smallest ratio. -/
inductive Leaves (limits : Limits Rat) (m far : Rat) (first : Nat) : Nat → Prop where
  | artificial (h : isArtificial (t.label first) = true) : Leaves limits m far first first
  | replacement {k : Nat} (h : isArtificial (t.label first) = false)
      (hk : IsLeast (t.replacements limits m far) k) : Leaves limits m far first k
  | structural (h : isArtificial (t.label first) = false)
      (hnone : t.replacements limits m far = ∅) : Leaves limits m far first first

/-- A row as the ratio test sees it. -/
def row (k : Nat) : BoundingRow Rat := ⟨k + 1, t.entry k, t.room k, t.label k⟩

variable {t} {limits : Limits Rat}

theorem ratio_row (k : Nat) : (t.row k).ratio = t.ratio k := by
  unfold BoundingRow.ratio
  rw [Scalar.magnitude_rat]
  rfl

theorem reach_row (prec : Rat) (k : Nat) : (t.row k).reach prec = t.reach prec k := by
  unfold BoundingRow.reach
  rw [Scalar.magnitude_rat]
  rfl

/-- The list of the ratio test holds the bounding rows and nothing else. -/
theorem mem_ofColumn_iff {tol : Rat} {b : BoundingRow Rat} :
    b ∈ BoundingRow.ofColumn tol t.entries t.rhs t.labels ↔
      ∃ k ∈ t.bounding tol, b = t.row k := by
  rw [BoundingRow.mem_ofColumn]
  constructor
  · intro h
    obtain ⟨⟨k, v, hrow, hentry, hrhs, havail, hlabel⟩, hlt⟩ := h
    have hb : b = t.row k := by
      obtain ⟨brow, bentry, bavail, blabel⟩ := b
      simp only [row, entry, room, label, List.getD_eq_getElem?_getD, hentry, hrhs, hlabel,
        Option.getD_some, BoundingRow.mk.injEq, true_and, and_true]
      exact ⟨hrow, havail.trans (Scalar.clamped_rat v)⟩
    rw [hb] at hlt
    exact ⟨k, ⟨(List.getElem?_eq_some_iff.1 hentry).1, hlt⟩, hb⟩
  · intro h
    obtain ⟨k, ⟨hk, hlt⟩, rfl⟩ := h
    have hrhs : k < t.rhs.length := t.rhs_length ▸ hk
    have hlabel : k < t.labels.length := t.labels_length ▸ hk
    refine ⟨⟨k, t.rhs[k], rfl, ?_, List.getElem?_eq_getElem hrhs, ?_, ?_⟩, hlt⟩
    · rw [List.getElem?_eq_getElem hk]
      exact congrArg some (List.getD_eq_getElem _ _ hk).symm
    · rw [Scalar.clamped_rat, ← List.getD_eq_getElem _ 0 hrhs]
      rfl
    · rw [List.getElem?_eq_getElem hlabel]
      exact congrArg some (List.getD_eq_getElem _ _ hlabel).symm

theorem row_mem_ofColumn {tol : Rat} {k : Nat} (hk : k ∈ t.bounding tol) :
    t.row k ∈ BoundingRow.ofColumn tol t.entries t.rhs t.labels :=
  mem_ofColumn_iff.2 ⟨k, hk, rfl⟩

theorem finite_bounding (tol : Rat) : (t.bounding tol).Finite :=
  (Set.finite_lt_nat t.entries.length).subset fun _ hk => hk.1

/-- Where a row bounds the step, there is a longest feasible step. -/
theorem exists_isLeast_reach {tol : Rat} (prec : Rat) (h : (t.bounding tol).Nonempty) :
    ∃ far, IsLeast (t.reach prec '' t.bounding tol) far := by
  obtain ⟨k, hk, hle⟩ := Set.exists_min_image _ (t.reach prec) (finite_bounding tol) h
  exact ⟨t.reach prec k, Set.mem_image_of_mem _ hk, Set.forall_mem_image.2 hle⟩

/-- **What the first pass finds**: the first row of the smallest ratio. -/
theorem isLeast_of_tightest {tol : Rat} {min : BoundingRow Rat}
    (h : BoundingRow.tightest (BoundingRow.ofColumn tol t.entries t.rhs t.labels) = some min) :
    ∃ m first, IsLeast (t.ratio '' t.bounding tol) m
      ∧ IsLeast {k ∈ t.bounding tol | t.ratio k = m} first ∧ min = t.row first := by
  obtain ⟨first, hfirst, rfl⟩ := mem_ofColumn_iff.1 (BoundingRow.tightest_mem h)
  have hle : ∀ k ∈ t.bounding tol, t.ratio first ≤ t.ratio k := by
    intro k hk
    have := BoundingRow.tightest_ratio_le comparable_rat (fun _ _ => trivial) h _
      (row_mem_ofColumn hk)
    rwa [ratio_row, ratio_row] at this
  refine ⟨t.ratio first, first, ⟨Set.mem_image_of_mem _ hfirst, Set.forall_mem_image.2 hle⟩,
    ⟨⟨hfirst, rfl⟩, ?_⟩, rfl⟩
  rintro k ⟨hk, hratio⟩
  by_contra hlt
  have hrow : (t.row k).row < (t.row first).row := Nat.succ_lt_succ (not_le.1 hlt)
  have := BoundingRow.tightest_lt (BoundingRow.pairwise_ofColumn ..) h _ (row_mem_ofColumn hk) hrow
  rw [ratio_row, ratio_row, hratio] at this
  exact lt_irrefl _ this

/-- **What the second pass looks for**: the rows that may leave instead. -/
theorem mayReplace_row_iff {m far : Rat} {first k : Nat}
    (hfar : IsLeast (t.reach limits.prec '' t.bounding limits.pivotTol) far)
    (hm : t.ratio first = m) (hk : k ∈ t.bounding limits.pivotTol) :
    BoundingRow.mayReplace limits
        (BoundingRow.ofColumn limits.pivotTol t.entries t.rhs t.labels) (t.row first) (t.row k)
        = true ↔ k ∈ t.replacements limits m far := by
  have hreach : (∀ r ∈ BoundingRow.ofColumn limits.pivotTol t.entries t.rhs t.labels,
      t.ratio k ≤ r.reach limits.prec) ↔ t.ratio k ≤ far := by
    rw [le_isGLB_iff hfar.isGLB, mem_lowerBounds, Set.forall_mem_image]
    constructor
    · intro h j hj
      rw [← reach_row]
      exact h _ (row_mem_ofColumn hj)
    · intro h r hr
      obtain ⟨j, hj, rfl⟩ := mem_ofColumn_iff.1 hr
      rw [reach_row]
      exact h hj
  rw [BoundingRow.mayReplace_iff, ratio_row, ratio_row, hreach, hm]
  exact ⟨fun h => ⟨hk, h⟩, fun h => h.2⟩

/-- **Both passes together**: the row that leaves by the rule. -/
theorem leaves_of_leavingRow {b : BoundingRow Rat}
    (h : leavingRow limits t.entries t.rhs t.labels = some b) :
    ∃ m far first k, IsLeast (t.ratio '' t.bounding limits.pivotTol) m
      ∧ IsLeast (t.reach limits.prec '' t.bounding limits.pivotTol) far
      ∧ IsLeast {k ∈ t.bounding limits.pivotTol | t.ratio k = m} first
      ∧ t.Leaves limits m far first k ∧ b = t.row k := by
  unfold leavingRow BoundingRow.leaving at h
  split at h
  · cases h
  next min hmin =>
    obtain ⟨m, first, hm, hfirst, rfl⟩ := isLeast_of_tightest hmin
    obtain ⟨far, hfar⟩ := exists_isLeast_reach limits.prec ⟨first, hfirst.1.1⟩
    have hreplace {k : Nat} (hk : k ∈ t.bounding limits.pivotTol) :=
      mayReplace_row_iff (k := k) hfar hfirst.1.2 hk
    refine ⟨m, far, first, ?_⟩
    split at h
    next hart =>
      cases h
      exact ⟨first, hm, hfar, hfirst, .artificial hart, rfl⟩
    next hart =>
      have hstructural : isArtificial (t.label first) = false := Bool.eq_false_iff.2 hart
      split at h
      next r hr =>
        cases h
        obtain ⟨k, hk, rfl⟩ := mem_ofColumn_iff.1 (List.mem_of_find?_eq_some hr)
        refine ⟨k, hm, hfar, hfirst, .replacement hstructural ⟨?_, ?_⟩, rfl⟩
        · exact (hreplace hk).1 (List.find?_some hr)
        · intro j hj
          by_contra hlt
          have hnot := BoundingRow.eq_false_of_find? (BoundingRow.pairwise_ofColumn ..) hr _
            (row_mem_ofColumn hj.1) (Nat.succ_lt_succ (not_le.1 hlt))
          rw [(hreplace hj.1).2 hj] at hnot
          cases hnot
      next hnone =>
        cases h
        refine ⟨first, hm, hfar, hfirst, .structural hstructural ?_, rfl⟩
        rw [Set.eq_empty_iff_forall_notMem]
        intro j hj
        exact List.find?_eq_none.1 hnone _ (row_mem_ofColumn hj.1) ((hreplace hj.1).2 hj)

/-- **An exact tie never keeps an artificial variable in the basis.** -/
theorem Leaves.lt_ratio {m far : Rat} {first k : Nat} (h : t.Leaves limits m far first k)
    (hprec : 0 ≤ limits.prec) (htie : 0 ≤ limits.ratioTieTol)
    (hm : IsLeast (t.ratio '' t.bounding limits.pivotTol) m)
    (hfar : IsLeast (t.reach limits.prec '' t.bounding limits.pivotTol) far)
    (hk : isArtificial (t.label k) = false) :
    ∀ j ∈ t.bounding limits.pivotTol, isArtificial (t.label j) = true → m < t.ratio j := by
  intro j hj hart
  cases h with
  | artificial h =>
      rw [h] at hk
      cases hk
  | replacement _ hleast =>
      rw [hleast.1.2.1] at hk
      cases hk
  | structural _ hnone =>
      by_contra hle
      -- the smallest ratio is within the tolerance of itself and within every reach
      have hmfar : m ≤ far := by
        rw [le_isGLB_iff hfar.isGLB, mem_lowerBounds, Set.forall_mem_image]
        intro i hi
        have hratio : t.ratio i ≤ t.reach limits.prec i := by
          rw [← ratio_row, ← reach_row]
          exact BoundingRow.ratio_le_reach hprec _
        exact (hm.2 (Set.mem_image_of_mem _ hi)).trans hratio
      have hmem : j ∈ t.replacements limits m far :=
        ⟨hj, hart, (not_lt.1 hle).trans (le_add_of_nonneg_right htie), (not_lt.1 hle).trans hmfar⟩
      rw [hnone] at hmem
      exact hmem

/-- **THE LEAVING ROW.**  For every column, right-hand sides and labels of
matching lengths and thresholds that are not negative:

  * no row leaves exactly if no entry is below `-pivotTol`;
  * otherwise the row that leaves is the one of the rule, and it is
    reported with its own entry, ratio and label;
  * if it is structural, every artificial row that bounds the step has a
    ratio above the smallest one. -/
theorem leavingRow_rule (t : RatioTest) (limits : Limits Rat) (hprec : 0 ≤ limits.prec)
    (htie : 0 ≤ limits.ratioTieTol) :
    (leavingRow limits t.entries t.rhs t.labels = none ↔
        ∀ v ∈ t.entries, ¬ v < -limits.pivotTol)
      ∧ ∀ b, leavingRow limits t.entries t.rhs t.labels = some b →
        ∃ m far first k, IsLeast (t.ratio '' t.bounding limits.pivotTol) m
          ∧ IsLeast (t.reach limits.prec '' t.bounding limits.pivotTol) far
          ∧ IsLeast {k ∈ t.bounding limits.pivotTol | t.ratio k = m} first
          ∧ t.Leaves limits m far first k
          ∧ b.row = k + 1 ∧ b.entry = t.entry k ∧ b.ratio = t.ratio k ∧ b.label = t.label k
          ∧ (isArtificial b.label = false → ∀ j ∈ t.bounding limits.pivotTol,
              isArtificial (t.label j) = true → m < t.ratio j) := by
  refine ⟨leavingRow_eq_none_iff t.rhs_length t.labels_length, fun b hb => ?_⟩
  obtain ⟨m, far, first, k, hm, hfar, hfirst, hleaves, rfl⟩ := leaves_of_leavingRow hb
  exact ⟨m, far, first, k, hm, hfar, hfirst, hleaves, rfl, rfl, ratio_row k, rfl,
    hleaves.lt_ratio hprec htie hm hfar⟩

/-- The first column of `Dictionary.nearTie`: an artificial row with ratio
3/2 above a structural one with ratio 1. -/
def nearTie : RatioTest where
  entries := [-1, -1]
  rhs := Dictionary.nearTie.tableau.rhs.entries
  labels := Dictionary.nearTie.left
  rhs_length := rfl
  labels_length := rfl

/-- Within a tolerance of 1 the artificial row leaves in place of the
tighter one, since with `prec = 1/2` its step is still feasible. -/
theorem leavingRow_rule_nearTie :
    leavingRow (Settings.coarse.limits Rat) nearTie.entries nearTie.rhs nearTie.labels
        = some ⟨1, -1, 3 / 2, -1⟩
      ∧ ∃ m far first, IsLeast (nearTie.ratio '' nearTie.bounding 0) m
        ∧ IsLeast (nearTie.reach (1 / 2) '' nearTie.bounding 0) far
        ∧ IsLeast {k ∈ nearTie.bounding 0 | nearTie.ratio k = m} first
        ∧ nearTie.Leaves (Settings.coarse.limits Rat) m far first 0 := by
  have hleaving : leavingRow (Settings.coarse.limits Rat) nearTie.entries nearTie.rhs
      nearTie.labels = some ⟨1, -1, 3 / 2, -1⟩ := by cbv
  have hprec : (0 : Rat) ≤ 1 / 2 := by norm_num
  obtain ⟨m, far, first, k, hm, hfar, hfirst, hleaves, hrow, -⟩ :=
    (leavingRow_rule nearTie (Settings.coarse.limits Rat) hprec zero_le_one).2 _ hleaving
  obtain rfl : 0 = k := Nat.succ.inj hrow
  exact ⟨hleaving, m, far, first, hm, hfar, hfirst, hleaves⟩

end RatioTest

end DenseSimplex
