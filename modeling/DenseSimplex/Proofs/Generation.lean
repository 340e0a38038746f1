/-
  DenseSimplex.Proofs.Generation
  ──────────────────────────────
  **EVERY PROGRAM THAT IS DRAWN CAN BE POSED.**

  Whatever is drawn for a shape, the program of the sample is accepted as a
  dictionary, as long as its labels fit signed 32-bit words:

      columns            n = max vars 1
      constraint rows    one per inequality, the bound on the sum, and
                         m = min eqRows n equations
      labels             n + 1, n + 2, …  on inequalities and bound,
                         -1, …, -m  on equations, and 1, …, n on columns.

  All labels are different, since the three ranges are apart
  (`LinearProgram.nodup_labels`), and equally long rows make a tableau, so
  nothing is left to be refused (`Sample.Drawn.exists_dictionary`).  What
  that dictionary poses is the start of a phase 1 that can succeed
  (`Sample.Poses`): no right-hand side is negative, no row is zero
  throughout, and the drawn point, completed by its slacks, solves all rows
  with every artificial variable at zero.  That needs no luck: it holds for
  all draws within their ranges (`Sample.drawn_poses`).
-/
import DenseSimplex.Proofs.Trials

namespace DenseSimplex

open LinearProgram (dot tableauRow oriented chargeRow)

/-! ## §1. Labels. -/

namespace LinearProgram

theorem lt_of_mem_slackLabels {n k : Nat} {id : Int} (h : id ∈ slackLabels n k) :
    (n : Int) < id := by
  obtain ⟨i, -, rfl⟩ := List.mem_map.1 h
  omega

theorem neg_of_mem_artificialLabels {m : Nat} {id : Int} (h : id ∈ artificialLabels m) :
    id < 0 := by
  obtain ⟨i, -, rfl⟩ := List.mem_map.1 h
  omega

theorem range_of_mem_structuralLabels {n : Nat} {id : Int} (h : id ∈ structuralLabels n) :
    1 ≤ id ∧ id ≤ n := by
  obtain ⟨j, hj, rfl⟩ := List.mem_map.1 h
  rw [List.mem_range] at hj
  omega

/-- **No label is used twice.** -/
theorem nodup_labels (n k m : Nat) :
    ((slackLabels n k ++ artificialLabels m) ++ structuralLabels n).Nodup := by
  -- numbering is one to one, and the three ranges are apart
  have hslack : (slackLabels n k).Nodup := by
    refine List.nodup_range.map fun i j hij => ?_
    simp only [Nat.cast_inj] at hij
    omega
  have hartificial : (artificialLabels m).Nodup := by
    refine List.nodup_range.map fun i j hij => ?_
    simp only [neg_inj, Nat.cast_inj] at hij
    omega
  have hstructural : (structuralLabels n).Nodup := by
    refine List.nodup_range.map fun i j hij => ?_
    simp only [Nat.cast_inj] at hij
    omega
  refine List.nodup_append.2 ⟨List.nodup_append.2 ⟨hslack, hartificial, ?_⟩, hstructural, ?_⟩
  · intro id hid id' hid' heq
    have hbig := lt_of_mem_slackLabels hid
    have hneg := neg_of_mem_artificialLabels hid'
    omega
  · intro id hid id' hid' heq
    obtain ⟨hpos, hle⟩ := range_of_mem_structuralLabels hid'
    rcases List.mem_append.1 hid with hid | hid
    · have hbig := lt_of_mem_slackLabels hid
      omega
    · have hneg := neg_of_mem_artificialLabels hid
      omega

/-- **Just the labels of artificial variables are artificial.** -/
theorem countArtificial_labels (n k m : Nat) :
    Dictionary.countArtificial ((slackLabels n k ++ artificialLabels m) ++ structuralLabels n)
      = m := by
  have hslack : Dictionary.countArtificial (slackLabels n k) = 0 := by
    refine List.countP_eq_zero.2 fun id hid => ?_
    have hbig := lt_of_mem_slackLabels hid
    rw [isArtificial_iff]
    omega
  have hstructural : Dictionary.countArtificial (structuralLabels n) = 0 := by
    refine List.countP_eq_zero.2 fun id hid => ?_
    have hpos := (range_of_mem_structuralLabels hid).1
    rw [isArtificial_iff]
    omega
  have hartificial : Dictionary.countArtificial (artificialLabels m) = m := by
    rw [Dictionary.countArtificial_eq_length, length_artificialLabels]
    intro id hid
    exact isArtificial_iff.2 (neg_of_mem_artificialLabels hid)
  rw [Dictionary.countArtificial_append, Dictionary.countArtificial_append, hslack, hstructural,
    hartificial, Nat.zero_add, Nat.add_zero]

/-- Turning an equation keeps its coefficients but for their sign. -/
theorem exists_oriented_ne_zero {point a : List Rat} (h : ∃ v ∈ a, v ≠ 0) :
    ∃ v ∈ (oriented point a).2, v ≠ 0 := by
  obtain ⟨v, hv, hne⟩ := h
  unfold oriented
  dsimp only
  split
  · exact ⟨-v, List.mem_map_of_mem hv, neg_ne_zero.2 hne⟩
  · exact ⟨v, hv, hne⟩

/-- The inner product with the costs, as a sum over the variables. -/
theorem dot_eq_sum_univ {costs v : List Rat} (h : costs.length = v.length) {x : Int → Rat}
    (hx : ∀ j (hj : j < v.length), x ((j + 1 : Nat) : Int) = v[j]) :
    dot costs v = ∑ j : Fin costs.length, costs[j] * x ((j + 1 : Nat) : Int) := by
  rw [dot_eq_sum, ← List.sum_ofFn]
  congr 1
  apply List.ext_getElem
  · rw [List.length_zipWith, List.length_ofFn, h, min_self]
  · intro j hj hj'
    rw [List.length_ofFn] at hj'
    rw [List.getElem_zipWith, List.getElem_ofFn, hx j (by omega)]
    rfl

end LinearProgram

/-! ## §2. Conditions of a sample. -/

namespace Sample

variable {δ : Type} {shape : Shape δ} {s : Sample Rat} {d : Dictionary Rat}

/-- **Every condition has a coefficient for each variable, and one of them
is not zero.** -/
theorem Drawn.conditions (h : s.Drawn shape) :
    ∀ row ∈ s.bounds ++ s.equations, row.2.length = s.point.length ∧ ∃ v ∈ row.2, v ≠ 0 := by
  have hrow : ∀ {a : List Rat}, Drawing.IsRow shape.columns a →
      a.length = s.point.length ∧ ∃ v ∈ a, v ≠ 0 := fun ha =>
    ⟨ha.length.trans h.point_length.symm, ha.exists_ne_zero⟩
  have hpos : 0 < s.point.length := by
    rw [h.point_length]
    exact shape.columns_pos
  intro row hmem
  rcases List.mem_append.1 hmem with hmem | hmem
  · rcases List.mem_append.1 hmem with hmem | hmem
    · obtain ⟨own, hown, rfl⟩ := List.mem_map.1 hmem
      exact hrow (h.inequality own hown).1
    · obtain rfl := List.mem_singleton.1 hmem
      exact ⟨List.length_replicate, 1, List.mem_replicate.2 ⟨hpos.ne', rfl⟩, one_ne_zero⟩
  · obtain ⟨a, ha, rfl⟩ := List.mem_map.1 hmem
    obtain ⟨hlength, hne⟩ := hrow (h.equality a ha)
    exact ⟨(LinearProgram.oriented_spec s.point a).2.1.trans hlength,
      LinearProgram.exists_oriented_ne_zero hne⟩

theorem Drawn.equality_length (h : s.Drawn shape) :
    ∀ a ∈ s.equalities, a.length = s.point.length := fun a ha =>
  (h.equality a ha).length.trans h.point_length.symm

/-- There are at most as many equalities as variables. -/
theorem Drawn.equalities_le (h : s.Drawn shape) : s.equalities.length ≤ s.point.length := by
  rw [h.equalities_length, h.point_length]
  exact min_le_right _ _

/-! ## §3. The first dictionary. -/

/-- **The rows of a sample are a tableau**, with a column for each variable
and a constraint row for each condition. -/
theorem Drawn.exists_tableau (h : s.Drawn shape)
    (hsize : s.point.length + (s.inequalities.length + 1) < 2 ^ 31) :
    ∃ t : Tableau Rat, Tableau.ofRows (LinearProgram.ofSample s).rows = .ok t
      ∧ t.width = s.point.length
      ∧ t.height = s.inequalities.length + 1 + s.equalities.length := by
  have hle := h.equalities_le
  rw [s.rows_ofSample]
  set first := s.equations.foldl chargeRow (List.replicate (s.point.length + 1) 0)
  set rest := (s.bounds ++ s.equations).map fun row => tableauRow row.1 row.2
  have hfirst : first.length = s.point.length + 1 := by
    refine (LinearProgram.getD_foldl_chargeRow s.equations (fun row hrow => ?_) _
      List.length_replicate 0).1
    exact (h.conditions row (List.mem_append_right _ hrow)).1
  have hrest : ∀ row ∈ rest, row.length = first.length := by
    rw [hfirst, List.forall_mem_map]
    intro row hrow
    show (row.2.map (-·)).length + 1 = _
    rw [List.length_map, (h.conditions row hrow).1]
  have hcount : (first :: rest).length = s.inequalities.length + 1 + s.equalities.length + 1 := by
    rw [List.length_cons, List.length_map, List.length_append, s.length_bounds, s.length_equations]
  -- there are at most 2 ^ 62 entries
  have hentries : (first :: rest).length * first.length < UInt64.size := by
    have hproduct := Nat.mul_le_mul (show (first :: rest).length ≤ 2 ^ 31 by omega)
      (show first.length ≤ 2 ^ 31 by omega)
    exact lt_of_le_of_lt hproduct (by decide)
  obtain ⟨t, ht⟩ := Tableau.exists_ofRows (by omega) hrest hentries
  obtain ⟨hheight, hwidth⟩ := Tableau.length_of_ofRows ht
  have hcolumns := hwidth first List.mem_cons_self
  exact ⟨t, ht, by omega, by omega⟩

/-- **The program of a sample is accepted**, if its labels fit. -/
theorem Drawn.exists_dictionary (h : s.Drawn shape)
    (hsize : s.point.length + (s.inequalities.length + 1) < 2 ^ 31) :
    ∃ d : Dictionary Rat, (LinearProgram.ofSample s).dictionary = .ok d
      ∧ d.artificials = s.equalities.length := by
  have hle := h.equalities_le
  obtain ⟨t, ht, hwidth, hheight⟩ := h.exists_tableau hsize
  obtain ⟨hleft, hright⟩ := LinearProgram.labels_ofSample hle hsize
  refine ⟨_, LinearProgram.dictionary_eq ht ?_, rfl⟩
  exact {
    left_length := by
      show (LinearProgram.ofSample s).left.length = t.height
      rw [hleft, hheight, List.length_append, LinearProgram.length_slackLabels,
        LinearProgram.length_artificialLabels]
    right_length := by
      show (LinearProgram.ofSample s).right.length = t.width
      rw [hright, hwidth, LinearProgram.length_structuralLabels]
    nodup := by
      show ((LinearProgram.ofSample s).left ++ (LinearProgram.ofSample s).right).Nodup
      rw [hleft, hright]
      exact LinearProgram.nodup_labels _ _ _
    count := by
      show Dictionary.countArtificial
        ((LinearProgram.ofSample s).left ++ (LinearProgram.ofSample s).right) = _
      rw [hleft, hright, LinearProgram.countArtificial_labels]
      rfl
    count_le := by
      show s.equalities.length ≤ t.width
      rw [hwidth]
      exact hle }

/-- **What the first dictionary of a sample poses**: a phase 1 of the
shape's size that starts feasible, is bounded, and can succeed, because the
sample's point solves all of its rows. -/
structure Poses (s : Sample Rat) (shape : Shape δ) (d : Dictionary Rat) : Prop where
  valid : d.validate = .ok ()
  width : d.tableau.width = max shape.vars 1
  height : d.tableau.height = shape.leRows + 1 + min shape.eqRows (max shape.vars 1)
  artificials : d.artificials = min shape.eqRows (max shape.vars 1)
  nodup : d.labels.Nodup
  artificial_left : ∀ id ∈ d.labels, isArtificial id = true → id ∈ d.left
  feasible : d.Feasible
  /-- Row 0 is minus the sum of the artificial variables' rows. -/
  phaseOne : d.IsPhaseOne
  nonzero : ∀ k < d.tableau.height, ∃ c ∈ d.tableau.columns, c.coeff (k + 1) ≠ 0
  /-- The objective is never positive, and the variables of the columns are
  bounded together. -/
  bounded : ∀ x z, d.Admissible [] x z → z ≤ 0 ∧ (d.right.map x).sum ≤ s.point.sum * 2
  /-- The point solves all rows, with slacks that are not negative and no
  artificial variable left, and has the known objective. -/
  point : ∃ x z, d.Admissible (d.labels.filter isArtificial) x z
    ∧ (∀ j (hj : j < s.point.length), x ((j + 1 : Nat) : Int) = s.point[j])
    ∧ ∑ j : Fin s.costs.length, s.costs[j] * x ((j + 1 : Nat) : Int)
      = (LinearProgram.ofSample s).feasibleObjective

/-- The shape of the first dictionary. -/
theorem Starts.shape_eq (h : s.Starts d) :
    d.tableau.width = s.point.length
      ∧ d.tableau.height = s.inequalities.length + 1 + s.equalities.length := by
  rw [← h.wellFormed.right_length, ← h.wellFormed.left_length, h.length_left, s.length_bounds,
    s.length_equations, h.right, List.length_map, List.length_range]
  exact ⟨rfl, rfl⟩

/-- **A row has the coefficients of its condition**, but for their sign. -/
theorem Starts.exists_ne_zero (h : s.Starts d) {k : Nat} {row : Rat × List Rat}
    (hrow : (s.bounds ++ s.equations)[k]? = some row) (hne : ∃ v ∈ row.2, v ≠ 0) :
    ∃ c ∈ d.tableau.columns, c.coeff (k + 1) ≠ 0 := by
  obtain ⟨v, hv, hv0⟩ := hne
  have hcoeff := Tableau.map_coeff_ofRows h.rows (rows_ofSample_at hrow)
  have hcolumns : d.tableau.columns.map (·.coeff (k + 1)) = row.2.map (-·) :=
    (List.cons.inj hcoeff).2
  have hmem : -v ∈ d.tableau.columns.map (·.coeff (k + 1)) := by
    rw [hcolumns]
    exact List.mem_map_of_mem hv
  obtain ⟨c, hc, hcv⟩ := List.mem_map.1 hmem
  exact ⟨c, hc, by rw [hcv]; exact neg_ne_zero.2 hv0⟩

/-- The bound on the sum is the row after the inequalities. -/
theorem Starts.sum_le (h : s.Starts d) {x : Int → Rat} {z : Rat} (hx : d.Admissible [] x z) :
    (d.right.map x).sum ≤ s.point.sum * 2 := by
  have hrow : (s.bounds ++ s.equations)[s.inequalities.length]?
      = some (s.point.sum * 2, List.replicate s.point.length 1) := by
    unfold bounds
    rw [List.append_assoc, List.getElem?_append_right (by rw [List.length_map]), List.length_map,
      Nat.sub_self]
    rfl
  have hlt : s.inequalities.length < d.left.length := by
    rw [h.length_left, s.length_bounds]
    omega
  have hslack := hx.nonneg _ (List.mem_append_left _ (List.getElem_mem hlt))
  have hlength : (d.right.map x).length = s.point.length := by
    rw [List.length_map, h.wellFormed.right_length, h.shape_eq.1]
  rw [hx.solves.row _ _ (List.getElem?_eq_getElem hlt), h.row_eq hrow, ← hlength,
    LinearProgram.dot_ones] at hslack
  exact sub_nonneg.1 hslack

/-- **The drawn point solves the first dictionary.** -/
theorem Starts.exists_solution (h : s.Starts d) (hs : s.Drawn shape) :
    ∃ x z, d.Admissible (d.labels.filter isArtificial) x z
      ∧ ∀ j (hj : j < s.point.length), x ((j + 1 : Nat) : Int) = s.point[j] := by
  set free : Int → Rat := fun id => s.point.getD (id.toNat - 1) 0
  have hpoint : d.right.map (d.completion free) = s.point := h.map_completion rfl
  have hsolves := Dictionary.solves_completion h.wellFormed free
  have hadmits : s.Admits s.point := (hs.fits 0).admits_point
  rw [← hpoint] at hadmits
  obtain ⟨hnonneg, hartificial⟩ := (h.admits_iff hsolves.row).1 hadmits
  have hphase := h.isPhaseOne hs.equality_length
  refine ⟨d.completion free, d.rowValue free 0, ⟨hsolves, hnonneg, fun id hid => ?_⟩,
    fun j hj => ?_⟩
  · rw [hphase.filter_labels] at hid
    obtain ⟨hleft, hart⟩ := List.mem_filter.1 hid
    exact hartificial id hleft hart
  · have hright : d.right[j]? = some ((j + 1 : Nat) : Int) := by
      rw [h.right, List.getElem?_map, List.getElem?_range hj]
      rfl
    have hentry := congrArg (·[j]?) hpoint
    rw [List.getElem?_map, hright, List.getElem?_eq_getElem hj] at hentry
    exact Option.some.inj hentry

/-- **What draws within their ranges pose.** -/
theorem Starts.poses (h : s.Starts d) (hs : s.Drawn shape)
    (hartificials : d.artificials = s.equalities.length) : s.Poses shape d := by
  obtain ⟨hwidth, hheight⟩ := h.shape_eq
  have hphase := h.isPhaseOne hs.equality_length
  exact {
    valid := Dictionary.validate_rat_iff.2 h.wellFormed
    width := hwidth.trans hs.point_length
    height := by
      rw [hheight, hs.inequalities_length, hs.equalities_length]
      rfl
    artificials := hartificials.trans hs.equalities_length
    nodup := h.wellFormed.nodup
    artificial_left := fun id hid hart => by
      refine (List.mem_append.1 hid).resolve_right fun hright => ?_
      rw [hphase.right id hright] at hart
      cases hart
    feasible := h.feasible (hs.fits 0).point_nonneg (hs.fits 0).slack_nonneg
    phaseOne := hphase
    nonzero := fun k hk => by
      have hlt : k < (s.bounds ++ s.equations).length := by
        rw [List.length_append, s.length_bounds, s.length_equations]
        omega
      exact h.exists_ne_zero (List.getElem?_eq_getElem hlt)
        (hs.conditions _ (List.getElem_mem hlt)).2
    bounded := fun x z hx => ⟨(hx.objective_phaseOne hphase).1, h.sum_le hx⟩
    point := by
      obtain ⟨x, z, hx, hpoint⟩ := h.exists_solution hs
      refine ⟨x, z, hx, hpoint, ?_⟩
      exact (LinearProgram.dot_eq_sum_univ (hs.costs_length.trans hs.point_length.symm)
        hpoint).symm }

/-! ## §4. Every draw. -/

/-- The lists of a shape can be held, if its labels fit. -/
theorem canBeHeld_of_lt {shape : Shape δ} (h : shape.vars + shape.leRows + 2 < 2 ^ 31) :
    shape.canBeHeld = true := by
  have hcolumns : shape.columns < 2 ^ 31 := max_lt (by omega) (by decide)
  have hequalities : shape.equalities ≤ shape.columns := min_le_right _ _
  unfold Shape.canBeHeld canHold
  rw [Bool.and_eq_true, decide_eq_true_iff, decide_eq_true_iff]
  unfold Shape.rows numberBytes listBytes maxBytes
  simp only [UInt64.size]
  omega

/-- **EVERY DRAW POSES A PHASE 1 THAT CAN SUCCEED.**  For every shape with
`vars + leRows + 2 < 2 ^ 31`, in exact arithmetic:

  * every sample of draws within their ranges makes a program that is
    accepted as a dictionary, and that dictionary poses a phase 1 of the
    shape's size, feasible, bounded and solved by the drawn point;
  * every source gives such a sample, and so does every seed.

No draw is excluded: there may be no inequalities, no equalities or more of
them than variables, and no variables asked for, and rows may be full or
zero but for the coefficient that is forced. -/
theorem drawn_poses :
    (∀ {δ : Type} (shape : Shape δ), shape.vars + shape.leRows + 2 < 2 ^ 31 →
      ∀ s : Sample Rat, s.Drawn shape →
        ∃ d : Dictionary Rat, (LinearProgram.ofSample s).dictionary = .ok d ∧ s.Poses shape d)
    ∧ ∀ shape : Shape Rat, shape.vars + shape.leRows + 2 < 2 ^ 31 →
      (∀ {γ : Type} [Source γ] (source : γ), ∃ s after,
          Sample.draw shape source = .ok (s, after) ∧ s.Drawn shape)
      ∧ ∀ seed, ∃ s, LinearProgram.generate shape seed = .ok (LinearProgram.ofSample s)
          ∧ s.Drawn shape := by
  refine ⟨fun {δ} shape hshape s hs => ?_, fun shape hshape => ?_⟩
  · have hsize : s.point.length + (s.inequalities.length + 1) < 2 ^ 31 := by
      have hcolumns : s.point.length = max shape.vars 1 := hs.point_length
      rw [hs.inequalities_length]
      omega
    obtain ⟨d, hd, hartificials⟩ := hs.exists_dictionary hsize
    exact ⟨d, hd, (starts_of_dictionary hs.equalities_le hd).poses hs hartificials⟩
  · have hdraw : ∀ {γ : Type} [Source γ] (source : γ), ∃ s after,
        Sample.draw shape source = .ok (s, after) ∧ s.Drawn shape := by
      intro γ _ source
      obtain ⟨s, after, h⟩ := succeeds_draw (canBeHeld_of_lt hshape) source
      exact ⟨s, after, h, yields_drawn shape source s after h⟩
    refine ⟨hdraw, fun seed => ?_⟩
    obtain ⟨s, after, h, hs⟩ := hdraw (Generator.ofSeed (UInt64.ofNat seed))
    refine ⟨s, ?_, hs⟩
    unfold LinearProgram.generate
    rw [show (Sample.draw shape).run _ = _ from h]

end Sample

/-- A draw for a shape without variables and with five equalities: there
are one variable and one equality, which is turned; the coefficient of the
inequality was zero and is forced. -/
def Sample.corner : Sample Rat where
  point := [1 / 2]
  costs := [1 / 4]
  inequalities := [([1 / 2], 1 / 4)]
  equalities := [[-(1 / 2)]]

/-- The first dictionary of that sample. -/
def Dictionary.corner : Dictionary Rat where
  tableau := ⟨⟨-(1 / 4), [1 / 2, 1, 1 / 4]⟩, [⟨1 / 2, [-(1 / 2), -1, -(1 / 2)]⟩], by decide⟩
  left := [2, 3, -1]
  right := [1]
  artificials := 1

/-- It is posed with one column, three rows and one artificial variable,
and every seed makes such a draw. -/
theorem Sample.drawn_poses_corner :
    (LinearProgram.ofSample .corner).dictionary = .ok Dictionary.corner
      ∧ Sample.corner.Poses (⟨0, 1, 5, 1 / 2⟩ : Shape Rat) Dictionary.corner
      ∧ ∃ s, LinearProgram.generate (⟨0, 1, 5, 1 / 2⟩ : Shape Rat) 7
          = .ok (LinearProgram.ofSample s)
        ∧ s.Drawn (⟨0, 1, 5, 1 / 2⟩ : Shape Rat) := by
  obtain ⟨hposes, hdraws⟩ := Sample.drawn_poses
  have hdrawn : Sample.corner.Drawn (⟨0, 1, 5, 1 / 2⟩ : Shape Rat) := {
    point_length := rfl
    point_range := by decide +kernel
    costs_length := rfl
    costs_range := by decide +kernel
    inequalities_length := rfl
    inequality := by
      rw [show Sample.corner.inequalities = [([1 / 2], 1 / 4)] from rfl, List.forall_mem_singleton]
      refine ⟨⟨[0], 0, 1 / 2, by decide +kernel, rfl, ?_⟩, by norm_num⟩
      decide +kernel
    equalities_length := rfl
    equality := by
      rw [show Sample.corner.equalities = [[-(1 / 2)]] from rfl, List.forall_mem_singleton]
      refine ⟨[-(1 / 2)], 0, 1 / 2, by decide +kernel, rfl, ?_⟩
      decide +kernel }
  have hcorner : (LinearProgram.ofSample .corner).dictionary = .ok Dictionary.corner := by
    have hrows : (LinearProgram.ofSample .corner).rows
        = [[-(1 / 4), 1 / 2], [1 / 2, -(1 / 2)], [1, -1], [1 / 4, -(1 / 2)]] := by decide +kernel
    have hleft : (LinearProgram.ofSample .corner).left = [2, 3, -1] := by decide +kernel
    have hright : (LinearProgram.ofSample .corner).right = [1] := by decide +kernel
    have hparts : (⟨Dictionary.corner.tableau, (LinearProgram.ofSample .corner).left,
        (LinearProgram.ofSample .corner).right, (LinearProgram.ofSample .corner).artificials⟩
          : Dictionary Rat) = Dictionary.corner := by
      rw [hleft, hright]
      rfl
    rw [← hparts]
    refine LinearProgram.dictionary_eq (by rw [hrows]; rfl) ?_
    rw [hparts]
    exact Dictionary.validate_rat_iff.1 (by rfl)
  obtain ⟨d, hd, h⟩ := hposes _ (by decide) .corner hdrawn
  obtain rfl : Dictionary.corner = d := Except.ok.inj (hcorner.symm.trans hd)
  exact ⟨hcorner, h, (hdraws _ (by decide)).2 7⟩

end DenseSimplex
