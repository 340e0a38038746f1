/-
  DenseSimplex.Proofs.Objective
  ─────────────────────────────
  **THE OBJECTIVE NEVER FALLS, AND THE BASIS DECIDES IT.**

  Let `prec = pivotTol = 0`.  A pivot adds its gain to the objective,

      objective after  =  objective before  +  column objective · ratio,

  and neither factor is negative (`Place.Chosen.objective_result`).  The
  factors are the entry and the ratio that the choice was made by, and the
  ratio is what the row of the pivot is worth afterwards (`Gains`).  So the
  objective never falls along any run (`Visits.gains_as_promised`).

  As long as nothing is eliminated, the system stays the same, and so the
  variables of the columns decide the objective: it is the value of the
  only solution in which they are all zero (`Reaches.objective_eq`).

  There are finitely many choices of columns.  So if pivots never end, the
  objective rises for the last time at some point, and every pivot from
  there on is degenerate (`exists_forall_degenerate`).
-/
import DenseSimplex.Proofs.Labels
import DenseSimplex.Proofs.Verdict

namespace DenseSimplex

namespace Dictionary

/-! ## §1. One pivot. -/

variable {d : Dictionary Rat} {limits : Limits Rat} {c : Choice Rat}

/-- The gain of a choice is a product of two factors, one positive and one
not negative. -/
theorem Place.Chosen.gain_spec {q : d.Place} (h : q.Chosen limits c) (hf : d.Feasible)
    (htol : limits.pivotTol = 0) (heps : 0 ≤ limits.epsObjective) :
    c.gain = q.column.objective * c.ratio ∧ 0 < q.column.objective ∧ 0 ≤ c.ratio
      ∧ c.ratio = d.tableau.rhs.coeff (q.row + 1) / -q.element := by
  obtain ⟨b, hb, hratio⟩ := h.exists_ratio hf htol
  obtain ⟨b', hb', -, -, -, rfl⟩ := h.leaves
  obtain rfl : b = b' := Option.some.inj (hb.symm.trans hb')
  refine ⟨rfl, lt_of_le_of_lt heps (not_le.1 h.improves), ?_, hratio⟩
  show 0 ≤ b.ratio
  rw [hratio]
  exact div_nonneg (feasible_iff.1 hf q.row) (by linarith [h.element_neg htol.ge])

theorem Place.Chosen.gain_nonneg {q : d.Place} (h : q.Chosen limits c) (hf : d.Feasible)
    (htol : limits.pivotTol = 0) (heps : 0 ≤ limits.epsObjective) : 0 ≤ c.gain := by
  obtain ⟨hgain, hpos, hratio, -⟩ := h.gain_spec hf htol heps
  rw [hgain]
  exact mul_nonneg (le_of_lt hpos) hratio

/-- Only a step of length zero gains nothing. -/
theorem Place.Chosen.ratio_eq_zero {q : d.Place} (h : q.Chosen limits c) (hf : d.Feasible)
    (htol : limits.pivotTol = 0) (heps : 0 ≤ limits.epsObjective) (hgain : c.gain = 0) :
    c.ratio = 0 := by
  obtain ⟨hproduct, hpos, -, -⟩ := h.gain_spec hf htol heps
  rw [hproduct] at hgain
  exact (mul_eq_zero.1 hgain).resolve_left (ne_of_gt hpos)

/-- **A pivot adds its gain to the objective.** -/
theorem Place.Chosen.objective_result {q : d.Place} (h : q.Chosen limits c) (hf : d.Feasible)
    (htol : limits.pivotTol = 0) (heps : 0 ≤ limits.epsObjective) {e : Elimination Rat}
    (he : e.prec = 0) : (q.result e).objective = d.objective + c.gain := by
  obtain ⟨hgain, -, -, hratio⟩ := h.gain_spec hf htol heps
  have hneg := h.element_neg htol.ge
  show (q.result e).tableau.rhs.coeff 0 = d.tableau.rhs.coeff 0 + c.gain
  rw [q.rhs_result, q.coeff_eliminate he rfl, if_neg (by omega), hgain, hratio, Column.coeff_zero,
    Column.coeff_zero, div_neg, mul_neg, mul_div_assoc]
  ring

/-- **The objective never falls**, and stays where it is only for steps of
length zero. -/
theorem Moves.objective_spec {s : Settings Rat} (hs : s.IsExact) {d' : Dictionary Rat}
    {e : Option Int} (h : d.Moves s (.pivoted c e) d') (hf : d.Feasible) :
    d'.objective = d.objective + c.gain ∧ 0 ≤ c.gain ∧ (c.gain = 0 → c.ratio = 0) := by
  cases h with
  | pivoted q hq =>
      exact ⟨hq.objective_result hf hs.pivotTol hs.epsObjective hs.prec,
        hq.gain_nonneg hf hs.pivotTol hs.epsObjective,
        hq.ratio_eq_zero hf hs.pivotTol hs.epsObjective⟩

/-- **The row of a pivot is worth the length of the step** afterwards. -/
theorem Place.Chosen.rhs_row_result {q : d.Place} (h : q.Chosen limits c) (hf : d.Feasible)
    (htol : limits.pivotTol = 0) (heps : 0 ≤ limits.epsObjective) {e : Elimination Rat}
    (he : e.prec = 0) : (q.result e).tableau.rhs.get? (q.row + 1) = some c.ratio := by
  obtain ⟨-, -, -, hratio⟩ := h.gain_spec hf htol heps
  have hheight : (q.eliminate e d.tableau.rhs).height = d.tableau.rhs.height :=
    Column.height_eliminated _ _ _ q.column_height.symm
  have hrow : q.row + 1 ≤ (q.eliminate e d.tableau.rhs).height := by
    rw [hheight]
    exact q.row_lt
  rw [q.rhs_result, Column.get?_eq_some_coeff hrow, q.coeff_eliminate he rfl, if_pos rfl, hratio,
    neg_div, div_neg]

/-- A pivot that keeps the number of artificial variables eliminates
none. -/
theorem Moves.eliminated_eq_none {s : Settings Rat} {d' : Dictionary Rat} {e : Option Int}
    (h : d.Moves s (.pivoted c e) d') (hd : d.WellFormed)
    (hcount : d'.artificials = d.artificials) : e = none := by
  cases h.relabels hd with
  | exchanged => rfl
  | eliminated _ _ _ _ _ hless => omega

/-! ## §2. What a choice promises. -/

/-- **What was promised for a pivot is what it does**: the gain is the
change of the objective, and the ratio is the new value of the row. -/
structure Gains (d : Dictionary Rat) (c : Choice Rat) (d' : Dictionary Rat) : Prop where
  objective : d'.objective = d.objective + c.gain
  gain : ∃ v, d.tableau.entry? c.col 0 = some v ∧ c.gain = v * c.ratio
  gain_nonneg : 0 ≤ c.gain
  rhs : d'.tableau.entry? 0 c.row = some c.ratio
  unchanged_iff : d'.objective = d.objective ↔ c.ratio = 0

theorem Moves.gains {s : Settings Rat} (hs : s.IsExact) {d' : Dictionary Rat} {e : Option Int}
    (h : d.Moves s (.pivoted c e) d') (hf : d.Feasible) : d.Gains c d' := by
  obtain ⟨hsum, hnonneg, hzero⟩ := h.objective_spec hs hf
  cases h with
  | pivoted q hq =>
      obtain ⟨hrow, hcol, -⟩ := hq.row_col
      obtain ⟨hgain, -, -, -⟩ := hq.gain_spec hf hs.pivotTol hs.epsObjective
      refine ⟨hsum, ⟨q.column.objective, ?_, hgain⟩, hnonneg, ?_, ?_⟩
      · rw [hcol]
        show (d.tableau.columns[q.col]?).bind (·.get? 0) = _
        rw [q.column_at]
        rfl
      · rw [hrow]
        exact hq.rhs_row_result hf hs.pivotTol hs.epsObjective hs.prec
      · rw [hsum, add_eq_left]
        refine ⟨hzero, fun hratio => ?_⟩
        rw [hgain, hratio, mul_zero]

/-- **No move lowers the objective.** -/
theorem Moves.objective_le {s : Settings Rat} (hs : s.IsExact) {r : StepResult Rat}
    {d' : Dictionary Rat} (h : d.Moves s r d') (hf : d.Feasible) : d.objective ≤ d'.objective := by
  cases r with
  | optimal =>
      cases h
      exact le_refl _
  | unbounded col =>
      cases h
      exact le_refl _
  | pivoted c e =>
      have hgains := h.gains hs hf
      rw [hgains.objective]
      exact le_add_of_nonneg_right hgains.gain_nonneg

theorem Reaches.objective_le {P : Settings Rat → Prop} (hP : ∀ s, P s → s.IsExact)
    {d d' : Dictionary Rat} {ids : List Int} (h : Reaches P d ids d') (hd : d.Sound) :
    d.objective ≤ d'.objective := by
  induction h with
  | start => exact le_refl _
  | move hbefore hs hm ih =>
      have hsound := hbefore.sound (fun s hs => (hP s hs).tight) hd
      exact ih.trans (hm.objective_le (hP _ hs) hsound.feasible)

end Dictionary

/-- **THE OBJECTIVE GAINS WHAT WAS PROMISED.**  Wherever steps and
invocations lead from a valid dictionary without negative right-hand sides,
in exact arithmetic and with any sources of coins:

  * a step that pivots gains what its choice says;
  * whatever steps and invocations follow, eliminations included, the
    objective never falls. -/
theorem Visits.gains_as_promised {d₀ : Dictionary Rat} (hd : d₀.validate = .ok ())
    (hf : d₀.Feasible) {γ : Type} [Source γ] {w : Walk Rat γ}
    (h : Visits Settings.IsExact d₀ w.dictionary) :
    (∀ (s : Settings Rat), s.IsExact → ∀ c e, (w.step s).result = .ok (.pivoted c e) →
        w.dictionary.Gains c (w.step s).walk.dictionary)
      ∧ ∀ d', Visits Settings.IsExact w.dictionary d' → w.dictionary.objective ≤ d'.objective := by
  have hsound₀ : d₀.Sound := ⟨Dictionary.validate_rat_iff.1 hd, hf⟩
  obtain ⟨ids, hreach⟩ := h.reaches (fun _ hs => hs.tight) hsound₀
  have hsound := hreach.sound (fun _ hs => hs.tight) hsound₀
  constructor
  · intro s hs c e hresult
    exact (Walk.moves_of_step s w hsound.wellFormed hresult).1.gains hs hsound.feasible
  · intro d' hd'
    obtain ⟨ids', hreach'⟩ := hd'.reaches (fun _ hs => hs.tight) hsound
    exact hreach'.objective_le (fun _ hs => hs) hsound

/-- The step along `x₁` drives the artificial variable out and gains 2. -/
theorem Visits.gains_as_promised_oneEquation :
    ((Loop.exact.walk Dictionary.oneEquation).step .exact).result
        = .ok (.pivoted ⟨1, 1, -1, 2, 2, false, true⟩ (some (-1)))
      ∧ Dictionary.oneEquation.Gains ⟨1, 1, -1, 2, 2, false, true⟩
          ((Loop.exact.walk Dictionary.oneEquation).step .exact).walk.dictionary
      ∧ Dictionary.oneEquation.objective
          ≤ (Loop.exact.run (fun _ => false) Dictionary.oneEquation).dictionary.objective := by
  have hexact : Settings.exact.IsExact := ⟨rfl, rfl, le_refl 0⟩
  have hf : Dictionary.oneEquation.Feasible := by
    show ∀ v ∈ [(2 : Rat), 3], 0 ≤ v
    norm_num
  have hstep : ((Loop.exact.walk Dictionary.oneEquation).step .exact).result
      = .ok (.pivoted ⟨1, 1, -1, 2, 2, false, true⟩ (some (-1))) := by cbv
  obtain ⟨hgains, hrun⟩ :=
    Visits.gains_as_promised (by rfl) hf (w := Loop.exact.walk Dictionary.oneEquation) .start
  exact ⟨hstep, hgains .exact hexact _ _ hstep, hrun _ (.run .start Loop.exact hexact _)⟩

namespace Dictionary

/-! ## §3. The basis decides the objective. -/

/-- **A system has one objective for each choice of columns.** -/
theorem Reaches.objective_eq {P : Settings Rat → Prop} (hP : ∀ s, P s → s.prec = 0)
    {d₀ d : Dictionary Rat} (h : Reaches P d₀ [] d) (hd : d₀.WellFormed)
    (hright : d.right.toFinset = d₀.right.toFinset) : d.objective = d₀.objective := by
  have hwf := h.wellFormed hd
  -- the solution with zeros in the columns solves the first system as well
  have hsolves : d.Solves (d.completion fun _ => 0) (d.rowValue (fun _ => 0) 0) :=
    solves_completion hwf _
  obtain ⟨y, hy, -, hagree⟩ := (h.restricts hP hd _ _).1 hsolves
  have hzero : ∀ id ∈ d₀.right, y id = 0 := by
    intro id hid
    have hmem : id ∈ d.right := by
      rw [← List.mem_toFinset, hright]
      exact List.mem_toFinset.2 hid
    rw [hagree id (List.mem_append_right _ hmem),
      completion_of_not_mem fun hleft => hwf.not_mem_right hleft hmem]
  have hvalue := hy.objective
  rw [rowValue_of_zero (fun _ _ => rfl), rowValue_of_zero hzero] at hvalue
  exact hvalue

/-! ## §4. Pivots without end. -/

section

variable {s : Settings Rat} {D : Nat → Dictionary Rat} {c : Nat → Choice Rat}
  {e : Nat → Option Int}

theorem reaches_of_moves (hmoves : ∀ n, (D n).Moves s (.pivoted (c n) (e n)) (D (n + 1)))
    (n k : Nat) : ∃ ids, Reaches (· = s) (D n) ids (D (n + k)) := by
  induction k with
  | zero => exact ⟨_, .start⟩
  | succ k ih =>
      obtain ⟨ids, hreach⟩ := ih
      exact ⟨_, .move hreach rfl (hmoves (n + k))⟩

/-- From some point on nothing is eliminated any more. -/
theorem exists_forall_reaches_nil (hd : (D 0).WellFormed)
    (hmoves : ∀ n, (D n).Moves s (.pivoted (c n) (e n)) (D (n + 1))) :
    ∃ N, ∀ n k, N ≤ n → Reaches (· = s) (D n) [] (D (n + k)) := by
  have hwf : ∀ n, (D n).WellFormed := by
    intro n
    obtain ⟨ids, hreach⟩ := reaches_of_moves hmoves 0 n
    rw [Nat.zero_add] at hreach
    exact hreach.wellFormed hd
  have hmin : ∃ N, ∀ n, (D N).artificials ≤ (D n).artificials :=
    ⟨Function.argmin fun n => (D n).artificials,
      fun n => Function.argmin_le (fun n => (D n).artificials) n⟩
  obtain ⟨N, hN⟩ := hmin
  refine ⟨N, fun n k hn => ?_⟩
  obtain ⟨k', rfl⟩ := Nat.exists_eq_add_of_le hn
  obtain ⟨ids', hbefore⟩ := reaches_of_moves hmoves N k'
  obtain ⟨ids, hreach⟩ := reaches_of_moves hmoves (N + k') k
  have hcount := hbefore.artificials_add_length (hwf N)
  have hcount' := hreach.artificials_add_length (hwf (N + k'))
  have hle := hN (N + k' + k)
  obtain rfl : ids = [] := List.length_eq_zero_iff.1 (by omega)
  exact hreach

theorem sound_of_moves (hs : s.Tight) (hd : (D 0).Sound)
    (hmoves : ∀ n, (D n).Moves s (.pivoted (c n) (e n)) (D (n + 1))) (n : Nat) : (D n).Sound := by
  induction n with
  | zero => exact hd
  | succ n ih => exact (hmoves n).sound hs ih

/-- **As long as nothing is eliminated, the objective takes finitely many
values**: one for each choice of columns. -/
theorem finite_range_objective (hs : s.prec = 0) (hd : (D 0).WellFormed)
    (hkept : ∀ n k, Reaches (· = s) (D n) [] (D (n + k))) :
    (Set.range fun n => (D n).objective).Finite := by
  have hfirst : ∀ n, Reaches (· = s) (D 0) [] (D n) := by
    intro n
    rw [← Nat.zero_add n]
    exact hkept 0 n
  have hP : ∀ s', s' = s → s'.prec = 0 := fun s' h => h ▸ hs
  have hcolumns : Function.FactorsThrough (fun n => (D n).objective)
      fun n => (D n).right.toFinset := by
    intro n m hright
    rcases Nat.le_total n m with hle | hle
    · obtain ⟨k, rfl⟩ := Nat.exists_eq_add_of_le hle
      exact ((hkept n k).objective_eq hP ((hfirst n).wellFormed hd) hright.symm).symm
    · obtain ⟨k, rfl⟩ := Nat.exists_eq_add_of_le hle
      exact (hkept m k).objective_eq hP ((hfirst m).wellFormed hd) hright
  have hchoices : (Set.range fun n => (D n).right.toFinset).Finite := by
    apply (Finset.finite_toSet (D 0).labels.toFinset.powerset).subset
    rintro - ⟨n, rfl⟩
    rw [Finset.mem_coe, Finset.mem_powerset]
    intro id hid
    rw [List.mem_toFinset] at hid ⊢
    exact (hfirst n).labels_perm.mem_iff.2
      (List.mem_append_right _ (List.mem_append_right _ hid))
  obtain ⟨value, hvalue⟩ := (Function.factorsThrough_iff _).1 hcolumns
  rw [hvalue, Set.range_comp]
  exact hchoices.image value

/-- A row of numbers that never falls and takes finitely many values rises
for the last time at some point. -/
theorem exists_forall_eq_succ {z : Nat → Rat} (hz : ∀ n, z n ≤ z (n + 1))
    (hfinite : (Set.range z).Finite) : ∃ M, ∀ n, M ≤ n → z (n + 1) = z n := by
  obtain ⟨-, ⟨M, rfl⟩, hmax⟩ :=
    Set.exists_max_image (Set.range z) id hfinite (Set.range_nonempty z)
  refine ⟨M, fun n hn => le_antisymm ?_ (hz n)⟩
  calc z (n + 1) ≤ z M := hmax _ ⟨n + 1, rfl⟩
    _ ≤ z n := monotone_nat_of_le_succ hz hn

/-- **If pivots never end, they are degenerate from some point on**, and
eliminate nothing. -/
theorem exists_forall_degenerate (hs : s.IsExact) (hd : (D 0).Sound)
    (hmoves : ∀ n, (D n).Moves s (.pivoted (c n) (e n)) (D (n + 1))) :
    ∃ N, ∀ n, N ≤ n → (c n).gain = 0 ∧ (c n).ratio = 0 ∧ e n = none := by
  have hsound := sound_of_moves hs.tight hd hmoves
  obtain ⟨N, hN⟩ := exists_forall_reaches_nil hd.wellFormed hmoves
  have hstep := fun n => (hmoves n).objective_spec hs (hsound n).feasible
  have hfinite : (Set.range fun n => (D (N + n)).objective).Finite := by
    refine finite_range_objective hs.prec (hsound N).wellFormed fun n k => ?_
    rw [← Nat.add_assoc]
    exact hN (N + n) k (Nat.le_add_right N n)
  have hrise : ∀ n, (D (N + n)).objective ≤ (D (N + (n + 1))).objective := fun n =>
    (hmoves (N + n)).objective_le hs (hsound (N + n)).feasible
  obtain ⟨M, hM⟩ := exists_forall_eq_succ hrise hfinite
  refine ⟨N + M, fun n hn => ?_⟩
  obtain ⟨k, rfl⟩ := Nat.exists_eq_add_of_le hn
  obtain ⟨hsum, -, hzero⟩ := hstep (N + M + k)
  have hsame := hM (M + k) (Nat.le_add_right M k)
  rw [← Nat.add_assoc, ← Nat.add_assoc, hsum] at hsame
  have hgain : (c (N + M + k)).gain = 0 := by linarith
  have hcount := (hN (N + M + k) 1 (by omega)).artificials_add_length (hsound _).wellFormed
  exact ⟨hgain, hzero hgain, (hmoves _).eliminated_eq_none (hsound _).wellFormed hcount⟩

end

end Dictionary

end DenseSimplex
