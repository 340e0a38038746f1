/-
  DenseSimplex.Proofs.FirstTableau
  ────────────────────────────────
  **THE FIRST TABLEAU OF A SAMPLE STANDS FOR ITS PROGRAM.**

  A sample asks for the greatest `c · v` over the points `v ≥ 0` with

      a · v ≤ max (a · p) 0 + slack     for every inequality,
      a · v = a · p                     for every equality,
      Σ v   ≤ 2 Σ p,

  where `p` is its feasible point (`Sample.Admits`, `Sample.values`).  The
  first tableau has a row `b - a · v` for each of these conditions, equality
  rows turned so that `b` is not negative, and the phase-1 objective is
  minus the sum of the equality rows.  So its dictionary is a feasible
  dictionary at the start of phase 1 (`Sample.Starts.isPhaseOne`), and an
  assignment solves it exactly if its slacks and artificial variables are
  what the conditions leave over (`Sample.Starts.row_eq`).

  The labels are 32-bit words and wrap around for huge programs.  Such a
  program is never accepted: either a variable gets a negative label, and
  the number of artificial variables is wrong, or two labels coincide
  (`LinearProgram.label_lt_of_valid`).
-/
import DenseSimplex.Proofs.Labels
import DenseSimplex.Proofs.PhaseOne
import DenseSimplex.Proofs.Pricing
import DenseSimplex.Proofs.Rows

namespace DenseSimplex

open LinearProgram (dot tableauRow oriented chargeRow label)

/-! ## §1. The program of a sample. -/

/-- **A sample for a shape**: lists of the right lengths, a point without
negative coordinates, and slacks that are not negative. -/
structure Sample.Fits (shape : Shape Rat) (s : Sample Rat) : Prop where
  point_length : s.point.length = shape.columns
  point_nonneg : ∀ v ∈ s.point, 0 ≤ v
  costs_length : s.costs.length = shape.columns
  inequalities_length : s.inequalities.length = shape.leRows
  inequality_length : ∀ row ∈ s.inequalities, row.1.length = shape.columns
  slack_nonneg : ∀ row ∈ s.inequalities, 0 ≤ row.2
  equalities_length : s.equalities.length = shape.equalities
  equality_length : ∀ a ∈ s.equalities, a.length = shape.columns

/-- **A point of the program of a sample.** -/
structure Sample.Admits (s : Sample Rat) (v : List Rat) : Prop where
  length : v.length = s.point.length
  nonneg : ∀ t ∈ v, 0 ≤ t
  inequalities : ∀ row ∈ s.inequalities, dot row.1 v ≤ max (dot row.1 s.point) 0 + row.2
  equalities : ∀ a ∈ s.equalities, dot a v = dot a s.point
  sum_le : v.sum ≤ s.point.sum * 2

/-- **The objective values of the program of a sample.** -/
def Sample.values (s : Sample Rat) : Set Rat := {z | ∃ v, s.Admits v ∧ z = dot s.costs v}

/-! ## §2. Inner products. -/

namespace LinearProgram

theorem dot_eq_sum (a v : List Rat) : dot a v = (List.zipWith (· * ·) a v).sum := by
  rw [List.sum_eq_foldl]
  rfl

theorem dot_cons (b : Rat) (a : List Rat) (t : Rat) (v : List Rat) :
    dot (b :: a) (t :: v) = b * t + dot a v := by
  rw [dot_eq_sum, dot_eq_sum, List.zipWith_cons_cons, List.sum_cons]

theorem dot_neg (a v : List Rat) : dot (a.map (-·)) v = -dot a v := by
  induction a generalizing v with
  | nil => rfl
  | cons b a ih =>
      cases v with
      | nil => rfl
      | cons t v =>
          rw [List.map_cons, dot_cons, dot_cons, ih]
          ring

theorem dot_ones (v : List Rat) : dot (List.replicate v.length 1) v = v.sum := by
  induction v with
  | nil => rfl
  | cons t v ih =>
      rw [List.length_cons, List.replicate_succ, dot_cons, ih, one_mul, List.sum_cons]

/-- A tableau row is what a condition leaves over. -/
theorem zipWith_tableauRow (a : List Rat) (x : Int → Rat) (ids : List Int) :
    (List.zipWith (fun t id => t * x id) (a.map (-·)) ids).sum = -dot a (ids.map x) := by
  rw [← dot_neg, dot_eq_sum, List.zipWith_map_right]

/-- An equation says the same in either orientation. -/
theorem oriented_spec (point a : List Rat) :
    0 ≤ (oriented point a).1 ∧ (oriented point a).2.length = a.length
      ∧ ∀ v, dot (oriented point a).2 v = (oriented point a).1 ↔ dot a v = dot a point := by
  unfold oriented
  dsimp only
  split
  next hneg =>
    refine ⟨le_of_lt (neg_pos.2 hneg), List.length_map _, fun v => ?_⟩
    rw [dot_neg, neg_inj]
  next hneg => exact ⟨not_lt.1 hneg, rfl, fun v => Iff.rfl⟩

/-- Charging an equality is subtracting its row. -/
theorem chargeRow_eq (objective : List Rat) (row : Rat × List Rat) :
    chargeRow objective row = List.zipWith (· - ·) objective (tableauRow row.1 row.2) := by
  cases objective with
  | nil => rfl
  | cons value entries =>
      have hentries : List.zipWith (· + ·) entries row.2
          = List.zipWith (· - ·) entries (row.2.map (-·)) := by
        rw [List.zipWith_map_right]
        simp only [sub_neg_eq_add]
      show (value - row.1) :: List.zipWith (· + ·) entries row.2 = _
      rw [hentries]
      rfl

/-- **The objective of phase 1**: minus the sum of the equality rows. -/
theorem getD_foldl_chargeRow {width : Nat} (rows : List (Rat × List Rat))
    (hrows : ∀ row ∈ rows, row.2.length = width) (objective : List Rat)
    (hobjective : objective.length = width + 1) (c : Nat) :
    (rows.foldl chargeRow objective).length = width + 1
      ∧ (rows.foldl chargeRow objective).getD c 0
        = objective.getD c 0 - (rows.map fun row => (tableauRow row.1 row.2).getD c 0).sum := by
  induction rows generalizing objective with
  | nil => exact ⟨hobjective, by simp⟩
  | cons row rows ih =>
      obtain ⟨hrow, hrows⟩ := List.forall_mem_cons.1 hrows
      have htableau : (tableauRow row.1 row.2).length = width + 1 := by
        show (row.2.map (-·)).length + 1 = _
        rw [List.length_map, hrow]
      have hlength : (chargeRow objective row).length = width + 1 := by
        rw [chargeRow_eq, List.length_zipWith, hobjective, htableau, min_self]
      have hentry : (chargeRow objective row).getD c 0
          = objective.getD c 0 - (tableauRow row.1 row.2).getD c 0 := by
        rw [chargeRow_eq]
        by_cases hc : c < width + 1
        · rw [List.getD_eq_getElem _ _ (by rw [List.length_zipWith]; omega),
            List.getD_eq_getElem _ _ (by omega), List.getD_eq_getElem _ _ (by omega),
            List.getElem_zipWith]
        · rw [List.getD_eq_default _ _ (by rw [List.length_zipWith]; omega),
            List.getD_eq_default _ _ (by omega), List.getD_eq_default _ _ (by omega), sub_zero]
      obtain ⟨hfold, hsum⟩ := ih hrows (chargeRow objective row) hlength
      refine ⟨hfold, ?_⟩
      rw [List.foldl_cons, hsum, hentry, List.map_cons, List.sum_cons]
      ring

end LinearProgram

/-! ## §3. Rows. -/

namespace Sample

/-- The inequalities and the bound on the sum, each as `b ≥ a · v`. -/
def bounds (s : Sample Rat) : List (Rat × List Rat) :=
  s.inequalities.map (fun row => (max (dot row.1 s.point) 0 + row.2, row.1))
    ++ [(s.point.sum * 2, List.replicate s.point.length 1)]

/-- The equalities, each as `b = a · v` with `b ≥ 0`. -/
def equations (s : Sample Rat) : List (Rat × List Rat) := s.equalities.map (oriented s.point)

theorem length_bounds (s : Sample Rat) : s.bounds.length = s.inequalities.length + 1 := by
  simp [bounds]

theorem length_equations (s : Sample Rat) : s.equations.length = s.equalities.length :=
  List.length_map _

/-- **The points of a program are those that keep to all conditions.** -/
theorem admits_iff (s : Sample Rat) (v : List Rat) :
    s.Admits v ↔ v.length = s.point.length ∧ (∀ t ∈ v, 0 ≤ t)
      ∧ (∀ row ∈ s.bounds, dot row.2 v ≤ row.1) ∧ ∀ row ∈ s.equations, dot row.2 v = row.1 := by
  have hequations : (∀ row ∈ s.equations, dot row.2 v = row.1)
      ↔ ∀ a ∈ s.equalities, dot a v = dot a s.point := by
    unfold equations
    rw [List.forall_mem_map]
    constructor
    · exact fun h a ha => ((LinearProgram.oriented_spec s.point a).2.2 v).1 (h a ha)
    · exact fun h a ha => ((LinearProgram.oriented_spec s.point a).2.2 v).2 (h a ha)
  have hbounds : v.length = s.point.length → ((∀ row ∈ s.bounds, dot row.2 v ≤ row.1)
      ↔ (∀ row ∈ s.inequalities, dot row.1 v ≤ max (dot row.1 s.point) 0 + row.2)
        ∧ v.sum ≤ s.point.sum * 2) := by
    intro hlength
    unfold bounds
    rw [List.forall_mem_append, List.forall_mem_map, List.forall_mem_singleton, ← hlength,
      LinearProgram.dot_ones]
  constructor
  · intro h
    exact ⟨h.length, h.nonneg, (hbounds h.length).2 ⟨h.inequalities, h.sum_le⟩,
      hequations.2 h.equalities⟩
  · intro h
    obtain ⟨hlength, hnonneg, hrows, hequal⟩ := h
    obtain ⟨hineq, hsum⟩ := (hbounds hlength).1 hrows
    exact ⟨hlength, hnonneg, hineq, hequations.1 hequal, hsum⟩

/-- The rows of the first tableau. -/
theorem rows_ofSample (s : Sample Rat) :
    (LinearProgram.ofSample s).rows
      = s.equations.foldl chargeRow (List.replicate (s.point.length + 1) 0)
        :: (s.bounds ++ s.equations).map fun row => tableauRow row.1 row.2 := by
  have hsum : s.point.foldl (· + ·) 0 * 2.0 = s.point.sum * 2 := by
    rw [List.sum_eq_foldl]
    norm_num
  unfold bounds equations LinearProgram.ofSample
  simp only [Scalar.clamped_rat, hsum, List.map_append, List.map_map, List.map_cons,
    List.append_assoc, Function.comp_def, List.cons_append, List.nil_append]

end Sample

/-! ## §4. Labels. -/

theorem isArtificial_iff {id : Int} : isArtificial id = true ↔ id < 0 := decide_eq_true_iff

namespace LinearProgram

/-- The label of a variable number that a signed word can hold. -/
theorem label_of_lt {n : Nat} (h : n < 2 ^ 31) : label n = n := by
  unfold label
  rw [Int.bmod_def]
  norm_num [UInt32.size] at h ⊢
  omega

/-- The first label that wraps around is that of an artificial variable. -/
theorem isArtificial_label_wrapped : isArtificial (label (2 ^ 31)) = true := by decide

/-- The one after it is the label of an artificial variable in its own
right. -/
theorem label_wrapped : label (2 ^ 31 + 1) = -label (2 ^ 31 - 1) := by decide

theorem isArtificial_neg_label {n : Nat} (hpos : 0 < n) (h : n < 2 ^ 31) :
    isArtificial (-label n) = true := by
  rw [label_of_lt h, isArtificial_iff]
  omega

/-- **Labels that pass the check have not wrapped around.**  Among the
labels of variables `1, …, N` and of artificial variables `1, …, m` with
`m < N`, none occurs twice and just `m` are artificial. -/
theorem label_lt_of_valid (structural : List Int) {equations : List Int} {N m : Nat} (hle : m < N)
    (hstructural : ∀ n, 1 ≤ n → n ≤ N → label n ∈ structural)
    (hequations : equations = (List.range m).map fun i => -label (i + 1))
    (hdisjoint : ∀ id ∈ structural, id ∉ equations)
    (hcount : Dictionary.countArtificial structural + Dictionary.countArtificial equations = m) :
    N < 2 ^ 31 := by
  by_contra hbig
  by_cases hm : m < 2 ^ 31
  -- with all `m` artificial variables counted, none is left for the wrapped one
  · have hall : Dictionary.countArtificial equations = m := by
      rw [Dictionary.countArtificial_eq_length, hequations, List.length_map, List.length_range]
      intro id hid
      rw [hequations] at hid
      obtain ⟨i, hi, rfl⟩ := List.mem_map.1 hid
      rw [List.mem_range] at hi
      exact isArtificial_neg_label (Nat.succ_pos i) (by omega)
    have hwrapped := hstructural (2 ^ 31) (by norm_num) (by omega)
    have hpos : 0 < Dictionary.countArtificial structural :=
      List.countP_pos_iff.2 ⟨_, hwrapped, isArtificial_label_wrapped⟩
    omega
  -- with more of them, one has the label of another variable
  · refine hdisjoint (label (2 ^ 31 + 1)) (hstructural _ (by norm_num) (by omega)) ?_
    rw [hequations, label_wrapped]
    exact List.mem_map.2 ⟨2 ^ 31 - 2, List.mem_range.2 (by omega), by norm_num⟩

/-- A dictionary that was made of a program has its rows and labels. -/
theorem of_dictionary {p : LinearProgram Rat} {d : Dictionary Rat} (h : p.dictionary = .ok d) :
    Tableau.ofRows p.rows = .ok d.tableau ∧ d.left = p.left ∧ d.right = p.right
      ∧ d.artificials = p.artificials ∧ d.WellFormed := by
  have hrows : p.rows.map (fun row => row.map (Element.narrow : Rat → Rat)) = p.rows := by
    show p.rows.map (fun row => row.map fun v => v) = p.rows
    simp
  unfold dictionary at h
  rw [hrows] at h
  cases ht : Tableau.ofRows p.rows with
  | error e =>
      rw [ht] at h
      cases h
  | ok t =>
      rw [ht] at h
      simp only [bind, Except.bind] at h
      unfold Dictionary.ofParts at h
      dsimp only at h
      split at h
      next d' hd' =>
        split at hd'
        next hvalid =>
          cases hd'
          cases h
          exact ⟨rfl, rfl, rfl, rfl, Dictionary.validate_rat_iff.1 hvalid⟩
        · cases hd'
      · cases h

/-- **Rows and labels that form a dictionary are one.** -/
theorem dictionary_eq {p : LinearProgram Rat} {t : Tableau Rat} (ht : Tableau.ofRows p.rows = .ok t)
    (hd : (⟨t, p.left, p.right, p.artificials⟩ : Dictionary Rat).WellFormed) :
    p.dictionary = .ok ⟨t, p.left, p.right, p.artificials⟩ := by
  have hrows : p.rows.map (fun row => row.map (Element.narrow : Rat → Rat)) = p.rows := by
    show p.rows.map (fun row => row.map fun v => v) = p.rows
    simp
  unfold dictionary
  rw [hrows, ht]
  simp only [bind, Except.bind]
  unfold Dictionary.ofParts
  dsimp only
  rw [Dictionary.validate_rat_iff.2 hd]
  rfl

/-- The labels of `k` slacks, after those of `n` variables. -/
def slackLabels (n k : Nat) : List Int :=
  (List.range k).map fun i : Nat => ((n + 1 + i : Nat) : Int)

/-- The labels of `m` artificial variables. -/
def artificialLabels (m : Nat) : List Int :=
  (List.range m).map fun i : Nat => -((i + 1 : Nat) : Int)

/-- The labels of `n` variables. -/
def structuralLabels (n : Nat) : List Int :=
  (List.range n).map fun j : Nat => ((j + 1 : Nat) : Int)

@[simp] theorem length_slackLabels (n k : Nat) : (slackLabels n k).length = k := by
  simp [slackLabels]

@[simp] theorem length_artificialLabels (m : Nat) : (artificialLabels m).length = m := by
  simp [artificialLabels]

@[simp] theorem length_structuralLabels (n : Nat) : (structuralLabels n).length = n := by
  simp [structuralLabels]

/-- **Labels that a signed word can hold** are the numbers themselves. -/
theorem labels_ofSample {s : Sample Rat} (hle : s.equalities.length ≤ s.point.length)
    (hlt : s.point.length + (s.inequalities.length + 1) < 2 ^ 31) :
    (ofSample s).left = slackLabels s.point.length (s.inequalities.length + 1)
        ++ artificialLabels s.equalities.length
      ∧ (ofSample s).right = structuralLabels s.point.length := by
  refine ⟨congrArg₂ (· ++ ·) ?_ ?_, ?_⟩
  · apply List.map_congr_left
    intro i hi
    rw [List.mem_range] at hi
    exact label_of_lt (by omega)
  · apply List.map_congr_left
    intro i hi
    rw [List.mem_range] at hi
    rw [label_of_lt (by omega)]
  · apply List.map_congr_left
    intro j hj
    rw [List.mem_range] at hj
    exact label_of_lt (by omega)

end LinearProgram

/-- **The first dictionary of a sample**: its rows, and labels that have
not wrapped around. -/
structure Sample.Starts (s : Sample Rat) (d : Dictionary Rat) : Prop where
  wellFormed : d.WellFormed
  rows : Tableau.ofRows (LinearProgram.ofSample s).rows = .ok d.tableau
  left : d.left = ((List.range (s.inequalities.length + 1)).map fun i : Nat =>
      ((s.point.length + 1 + i : Nat) : Int))
    ++ (List.range s.equalities.length).map fun i : Nat => -((i + 1 : Nat) : Int)
  right : d.right = (List.range s.point.length).map fun j : Nat => ((j + 1 : Nat) : Int)

/-- **A sample whose program is accepted starts with that dictionary.** -/
theorem Sample.starts_of_dictionary {s : Sample Rat} (hle : s.equalities.length ≤ s.point.length)
    {d : Dictionary Rat} (h : (LinearProgram.ofSample s).dictionary = .ok d) : s.Starts d := by
  obtain ⟨hrows, hleft, hright, hartificials, hwf⟩ := LinearProgram.of_dictionary h
  set slacks : List Int :=
    (List.range (s.inequalities.length + 1)).map fun i => label (s.point.length + 1 + i)
  set artificial : List Int := (List.range s.equalities.length).map fun i => -label (i + 1)
  have hleft' : d.left = slacks ++ artificial := hleft
  have hright' : d.right = (List.range s.point.length).map fun j => label (j + 1) := hright
  have hlt : s.point.length + (s.inequalities.length + 1) < 2 ^ 31 := by
    have hcompare : s.equalities.length < s.point.length + (s.inequalities.length + 1) := by omega
    refine LinearProgram.label_lt_of_valid (slacks ++ d.right) hcompare ?_
      (show artificial = _ from rfl) ?_ ?_
    · intro k hpos hk
      by_cases hn : k ≤ s.point.length
      · refine List.mem_append_right _ ?_
        rw [hright']
        exact List.mem_map.2 ⟨k - 1, List.mem_range.2 (by omega), by rw [Nat.sub_add_cancel hpos]⟩
      · refine List.mem_append_left _ ?_
        refine List.mem_map.2 ⟨k - (s.point.length + 1), List.mem_range.2 (by omega), ?_⟩
        rw [Nat.add_sub_cancel' (by omega)]
    · intro id hid hart
      have hnodup := hwf.nodup
      rw [Dictionary.labels, hleft'] at hnodup
      obtain ⟨hrows', -, hcolumns⟩ := List.nodup_append.1 hnodup
      rcases List.mem_append.1 hid with hid | hid
      · exact (List.nodup_append.1 hrows').2.2 id hid id hart rfl
      · exact hcolumns id (List.mem_append_right _ hart) id hid rfl
    · have hcount := hwf.count
      rw [hartificials, Dictionary.labels, hleft', Dictionary.countArtificial_append,
        Dictionary.countArtificial_append] at hcount
      have hm : (LinearProgram.ofSample s).artificials = s.equalities.length := rfl
      rw [Dictionary.countArtificial_append]
      omega
  obtain ⟨hlabels, hlabels'⟩ := LinearProgram.labels_ofSample hle hlt
  exact ⟨hwf, hrows, hleft.trans hlabels, hright.trans hlabels'⟩

/-! ## §5. The first dictionary. -/

namespace Sample

variable {s : Sample Rat} {d : Dictionary Rat}

theorem bound_at {k : Nat} (hk : k < s.bounds.length) :
    (s.bounds ++ s.equations)[k]? = some s.bounds[k] := by
  rw [List.getElem?_append_left hk]
  exact List.getElem?_eq_getElem hk

theorem equation_at {k : Nat} (hk : s.bounds.length ≤ k)
    (hlt : k < s.bounds.length + s.equations.length) :
    ∃ row ∈ s.equations, (s.bounds ++ s.equations)[k]? = some row := by
  have hi : k - s.bounds.length < s.equations.length := by omega
  refine ⟨s.equations[k - s.bounds.length], List.getElem_mem hi, ?_⟩
  rw [List.getElem?_append_right hk]
  exact List.getElem?_eq_getElem hi

/-- The row of a condition, in the first tableau. -/
theorem rows_ofSample_at {k : Nat} {row : Rat × List Rat}
    (hrow : (s.bounds ++ s.equations)[k]? = some row) :
    (LinearProgram.ofSample s).rows[k + 1]? = some (tableauRow row.1 row.2) := by
  rw [s.rows_ofSample, List.getElem?_cons_succ, List.getElem?_map, hrow]
  rfl

/-- **Every constraint row is what its condition leaves over.** -/
theorem Starts.row_eq (h : s.Starts d) {k : Nat} {row : Rat × List Rat}
    (hrow : (s.bounds ++ s.equations)[k]? = some row) (x : Int → Rat) :
    d.rowValue x (k + 1) = row.1 - dot row.2 (d.right.map x) := by
  have hcoeff := Tableau.map_coeff_ofRows h.rows (rows_ofSample_at hrow)
  rw [Dictionary.rowValue_of_row hcoeff, LinearProgram.zipWith_tableauRow, sub_eq_add_neg]

theorem Starts.length_left (h : s.Starts d) :
    d.left.length = s.bounds.length + s.equations.length := by
  rw [h.left, List.length_append, List.length_map, List.length_map, List.length_range,
    List.length_range, s.length_bounds, s.length_equations]

theorem Starts.lt_of_left (h : s.Starts d) {k : Nat} {id : Int} (hid : d.left[k]? = some id) :
    k < s.bounds.length + s.equations.length := by
  rw [← h.length_left]
  exact (List.getElem?_eq_some_iff.1 hid).1

/-- **The variable of a row**: a slack if its condition is a bound, and an
artificial variable if it is an equation. -/
theorem Starts.left_at (h : s.Starts d) {k : Nat} {id : Int} (hid : d.left[k]? = some id) :
    (k < s.bounds.length ∧ (s.point.length : Int) < id)
      ∨ (s.bounds.length ≤ k ∧ isArtificial id = true) := by
  rw [h.left, List.getElem?_append, List.length_map, List.length_range, ← s.length_bounds] at hid
  split at hid
  next hk =>
    rw [List.getElem?_map, List.getElem?_range hk] at hid
    obtain rfl := Option.some.inj hid
    exact .inl ⟨hk, by push_cast; omega⟩
  next hk =>
    obtain ⟨i, -, rfl⟩ := List.mem_map.1 (List.mem_of_getElem? hid)
    refine .inr ⟨not_lt.1 hk, ?_⟩
    rw [isArtificial_iff]
    omega

theorem Starts.mem_right_iff (h : s.Starts d) {id : Int} :
    id ∈ d.right ↔ 1 ≤ id ∧ id ≤ s.point.length := by
  rw [h.right, List.mem_map]
  constructor
  · rintro ⟨j, hj, rfl⟩
    rw [List.mem_range] at hj
    omega
  · intro hid
    obtain ⟨hpos, hle⟩ := hid
    exact ⟨(id - 1).toNat, List.mem_range.2 (by omega), by push_cast; omega⟩

/-- A point, completed by its slacks, is still that point. -/
theorem Starts.map_completion (h : s.Starts d) {v : List Rat} (hv : v.length = s.point.length) :
    d.right.map (d.completion fun id => v.getD (id.toNat - 1) 0) = v := by
  have hfree : d.right.map (d.completion fun id => v.getD (id.toNat - 1) 0)
      = d.right.map fun id => v.getD (id.toNat - 1) 0 := by
    apply List.map_congr_left
    intro id hid
    exact Dictionary.completion_of_not_mem fun hleft => h.wellFormed.not_mem_right hleft hid
  rw [hfree, h.right, List.map_map]
  apply List.ext_getElem
  · rw [List.length_map, List.length_range, hv]
  · intro j hj hj'
    rw [List.getElem_map, List.getElem_range]
    exact List.getD_eq_getElem _ _ hj'

/-- No right-hand side of a condition is negative. -/
theorem nonneg_of_mem (hpoint : ∀ v ∈ s.point, 0 ≤ v)
    (hslack : ∀ row ∈ s.inequalities, 0 ≤ row.2) :
    ∀ row ∈ s.bounds ++ s.equations, 0 ≤ row.1 := by
  intro row hrow
  rcases List.mem_append.1 hrow with hrow | hrow
  · rcases List.mem_append.1 hrow with hrow | hrow
    · obtain ⟨own, hown, rfl⟩ := List.mem_map.1 hrow
      exact add_nonneg (le_max_right _ _) (hslack own hown)
    · obtain rfl := List.mem_singleton.1 hrow
      exact mul_nonneg (List.sum_nonneg hpoint) (by norm_num)
  · obtain ⟨a, -, rfl⟩ := List.mem_map.1 hrow
    exact (LinearProgram.oriented_spec s.point a).1

/-- **The first dictionary is feasible.** -/
theorem Starts.feasible (h : s.Starts d) (hpoint : ∀ v ∈ s.point, 0 ≤ v)
    (hslack : ∀ row ∈ s.inequalities, 0 ≤ row.2) : d.Feasible := by
  rw [Dictionary.feasible_iff]
  intro k
  by_cases hk : k < (s.bounds ++ s.equations).length
  · have hrow := List.getElem?_eq_getElem hk
    rw [Tableau.coeff_ofRows h.rows (j := 0) rfl (rows_ofSample_at hrow)]
    exact nonneg_of_mem hpoint hslack _ (List.getElem_mem hk)
  · have hheight : d.tableau.rhs.height ≤ k := by
      show d.tableau.height ≤ k
      rw [← h.wellFormed.left_length, h.length_left, ← List.length_append]
      exact not_lt.1 hk
    rw [Column.coeff_of_height_le hheight]

/-- **The first dictionary is at the start of phase 1.** -/
theorem Starts.isPhaseOne (h : s.Starts d)
    (hlength : ∀ a ∈ s.equalities, a.length = s.point.length) : d.IsPhaseOne := by
  have hequations : ∀ row ∈ s.equations, row.2.length = s.point.length := by
    intro row hrow
    obtain ⟨a, ha, rfl⟩ := List.mem_map.1 hrow
    rw [(LinearProgram.oriented_spec s.point a).2.1, hlength a ha]
  refine ⟨fun id hid => ?_, fun c hc => ?_⟩
  · have hpos := (h.mem_right_iff.1 hid).1
    rw [← Bool.not_eq_true, isArtificial_iff]
    omega
  · obtain ⟨j, hj⟩ := List.getElem?_of_mem hc
    have hobjective : c.objective
        = -(s.equations.map fun row => (tableauRow row.1 row.2).getD j 0).sum := by
      have hfirst := Tableau.coeff_ofRows h.rows hj (r := 0) (by rw [s.rows_ofSample]; rfl)
      rw [Column.coeff_zero] at hfirst
      have hzero : (List.replicate (s.point.length + 1) (0 : Rat)).getD j 0 = 0 := by
        rw [List.getD_eq_getElem?_getD, List.getElem?_replicate]
        split <;> rfl
      rw [hfirst, (LinearProgram.getD_foldl_chargeRow s.equations hequations _
        List.length_replicate j).2, hzero, zero_sub]
    -- the rows of slacks are passed over, and those of the equations are in order
    have hrows : (d.left.mapIdx fun k id => if isArtificial id = true then c.coeff (k + 1) else 0)
        = List.replicate s.bounds.length 0
          ++ s.equations.map fun row => (tableauRow row.1 row.2).getD j 0 := by
      apply List.ext_getElem
      · rw [List.length_mapIdx, h.length_left, List.length_append, List.length_replicate,
          List.length_map]
      · intro k hk hk'
        rw [List.getElem_mapIdx, List.getElem_append]
        rw [List.length_mapIdx] at hk
        obtain ⟨hbound, hid⟩ | ⟨hbound, hart⟩ := h.left_at (List.getElem?_eq_getElem hk)
        · have hart : ¬ isArtificial d.left[k] = true := by
            rw [isArtificial_iff]
            omega
          rw [if_neg hart, dif_pos (by rw [List.length_replicate]; exact hbound),
            List.getElem_replicate]
        · have hi := h.lt_of_left (List.getElem?_eq_getElem hk)
          have hrow : (s.bounds ++ s.equations)[k]? = some s.equations[k - s.bounds.length] := by
            rw [List.getElem?_append_right hbound]
            exact List.getElem?_eq_getElem (by omega)
          rw [if_pos hart, dif_neg (by rw [List.length_replicate]; exact not_lt.2 hbound),
            Tableau.coeff_ofRows h.rows hj (rows_ofSample_at hrow), List.getElem_map]
          simp only [List.length_replicate]
    rw [hobjective, Dictionary.artificialSum_eq, hrows, List.sum_append, List.sum_replicate,
      smul_zero, zero_add]

/-- **A solution is a point of the program** exactly if no variable is
negative and the artificial ones are zero. -/
theorem Starts.admits_iff (h : s.Starts d) {x : Int → Rat}
    (hx : ∀ k id, d.left[k]? = some id → x id = d.rowValue x (k + 1)) :
    s.Admits (d.right.map x) ↔ (∀ id ∈ d.labels, 0 ≤ x id)
      ∧ ∀ id ∈ d.left, isArtificial id = true → x id = 0 := by
  have hlength : (d.right.map x).length = s.point.length := by
    rw [List.length_map, h.right, List.length_map, List.length_range]
  have hvalue : ∀ {k : Nat} {id : Int} {row : Rat × List Rat}, d.left[k]? = some id →
      (s.bounds ++ s.equations)[k]? = some row → x id = row.1 - dot row.2 (d.right.map x) := by
    intro k id row hid hrow
    rw [hx k id hid, h.row_eq hrow]
  have hexists : ∀ {k : Nat} {row : Rat × List Rat}, (s.bounds ++ s.equations)[k]? = some row →
      ∃ id, d.left[k]? = some id := by
    intro k row hrow
    have hk := (List.getElem?_eq_some_iff.1 hrow).1
    rw [List.length_append, ← h.length_left] at hk
    exact ⟨_, List.getElem?_eq_getElem hk⟩
  rw [s.admits_iff]
  constructor
  · intro hv
    obtain ⟨-, hnonneg, hbounds, hequations⟩ := hv
    -- every row is a bound with its slack or an equation with nothing left over
    have hrows : ∀ (k : Nat) (id : Int), d.left[k]? = some id →
        0 ≤ x id ∧ (isArtificial id = true → x id = 0) := by
      intro k id hid
      obtain ⟨hk, hbig⟩ | ⟨hk, hart⟩ := h.left_at hid
      · rw [hvalue hid (bound_at hk)]
        refine ⟨sub_nonneg.2 (hbounds _ (List.getElem_mem hk)), fun hart => ?_⟩
        rw [isArtificial_iff] at hart
        omega
      · obtain ⟨row, hmem, hrow⟩ := equation_at hk (h.lt_of_left hid)
        have hzero : x id = 0 := by rw [hvalue hid hrow, hequations row hmem, sub_self]
        exact ⟨le_of_eq hzero.symm, fun _ => hzero⟩
    refine ⟨fun id hid => ?_, fun id hid hart => ?_⟩
    · rcases List.mem_append.1 hid with hid | hid
      · obtain ⟨k, hk⟩ := List.getElem?_of_mem hid
        exact (hrows k id hk).1
      · exact hnonneg _ (List.mem_map_of_mem hid)
    · obtain ⟨k, hk⟩ := List.getElem?_of_mem hid
      exact (hrows k id hk).2 hart
  · intro hx
    obtain ⟨hnonneg, hzero⟩ := hx
    refine ⟨hlength, ?_, fun row hrow => ?_, fun row hrow => ?_⟩
    · intro t ht
      obtain ⟨id, hid, rfl⟩ := List.mem_map.1 ht
      exact hnonneg id (List.mem_append_right _ hid)
    · obtain ⟨k, hk⟩ := List.getElem?_of_mem hrow
      have hk' : (s.bounds ++ s.equations)[k]? = some row := by
        rw [List.getElem?_append_left (List.getElem?_eq_some_iff.1 hk).1]
        exact hk
      obtain ⟨id, hid⟩ := hexists hk'
      have hslack := hnonneg id (List.mem_append_left _ (List.mem_of_getElem? hid))
      rw [hvalue hid hk'] at hslack
      exact sub_nonneg.1 hslack
    · obtain ⟨i, hi⟩ := List.getElem?_of_mem hrow
      have hk' : (s.bounds ++ s.equations)[s.bounds.length + i]? = some row := by
        rw [List.getElem?_append_right (Nat.le_add_right _ _), Nat.add_sub_cancel_left]
        exact hi
      obtain ⟨id, hid⟩ := hexists hk'
      obtain ⟨hlt, -⟩ | ⟨-, hart⟩ := h.left_at hid
      · omega
      · have hleft := hzero id (List.mem_of_getElem? hid) hart
        rw [hvalue hid hk'] at hleft
        exact (sub_eq_zero.1 hleft).symm

end Sample

end DenseSimplex
