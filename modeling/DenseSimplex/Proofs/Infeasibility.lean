/-
  DenseSimplex.Proofs.Infeasibility
  ─────────────────────────────────
  **WHEN THE VERDICT OF INFEASIBILITY IS RIGHT.**

  In phase 1 the objective is minus the sum of the artificial variables:
  row 0 is minus the sum of their rows, in every column
  (`Dictionary.IsPhaseOne`).  So every solution has

      z  =  - Σ  artificial variables,

  which is 0 exactly for the solutions of the problem proper
  (`Dictionary.Satisfiable`), and an optimum below 0 proves that there are
  none.

  `Outcome.isInfeasible` asks instead whether artificial variables are left
  at the optimum.  It never looks at the objective, and artificial
  variables can be left at value 0: of two copies of an equation only one
  can leave the basis.  The verdict is right exactly if the optimum is
  below 0 (`History.isInfeasible_iff`).
-/
import DenseSimplex.Proofs.Verdict

namespace DenseSimplex

namespace Dictionary

/-! ## §1. The objective of phase 1. -/

/-- The rows of artificial variables, counted from 0, each with its
variable. -/
def artificialRows (d : Dictionary Rat) : List (Int × Nat) :=
  d.left.zipIdx.filter fun p => isArtificial p.1

/-- The sum of what the artificial variables' rows hold. -/
def artificialSum (d : Dictionary Rat) (value : Nat → Rat) : Rat :=
  (d.artificialRows.map fun p => value (p.2 + 1)).sum

/-- **A dictionary at the start of phase 1**: the artificial variables are
all in the basis, and row 0 is minus the sum of their rows, in every
column. -/
structure IsPhaseOne (d : Dictionary Rat) : Prop where
  right : ∀ id ∈ d.right, isArtificial id = false
  objective : ∀ c ∈ d.tableau.allColumns, c.objective = -d.artificialSum c.coeff

/-- **The problem proper has a solution**: one in which every artificial
variable is zero. -/
def Satisfiable (d : Dictionary Rat) : Prop :=
  ∃ x z, d.Admissible (d.labels.filter isArtificial) x z

theorem artificialSum_add_mul (d : Dictionary Rat) (f g : Nat → Rat) (v : Rat) :
    d.artificialSum (fun k => f k + g k * v) = d.artificialSum f + d.artificialSum g * v := by
  unfold artificialSum
  rw [List.sum_map_add, List.sum_map_mul_right]

/-- Row 0 of a phase 1 dictionary, on a part of the columns. -/
theorem IsPhaseOne.termSum_zero {d : Dictionary Rat} (h : d.IsPhaseOne) (x : Int → Rat)
    (ts : List (Int × Column Rat)) (hts : ∀ t ∈ ts, t.2 ∈ d.tableau.columns) :
    d.tableau.rhs.coeff 0 + termSum ts x 0
      = -d.artificialSum fun k => d.tableau.rhs.coeff k + termSum ts x k := by
  induction ts with
  | nil =>
      have hrhs := h.objective _ List.mem_cons_self
      simp only [termSum, List.map_nil, List.sum_nil, add_zero]
      exact hrhs
  | cons t ts ih =>
      obtain ⟨ht, hts⟩ := List.forall_mem_cons.1 hts
      have hcolumn : t.2.coeff 0 = -d.artificialSum t.2.coeff :=
        h.objective _ (List.mem_cons_of_mem _ ht)
      have hsplit : (fun k => d.tableau.rhs.coeff k + termSum (t :: ts) x k)
          = fun k => (d.tableau.rhs.coeff k + termSum ts x k) + t.2.coeff k * x t.1 := by
        funext k
        rw [termSum_cons]
        ring
      rw [hsplit, artificialSum_add_mul, termSum_cons, hcolumn, neg_add, ← ih hts]
      ring

/-- **In phase 1 the objective of a solution is minus the sum of its
artificial variables.** -/
theorem Solves.objective_eq {d : Dictionary Rat} {x : Int → Rat} {z : Rat} (h : d.Solves x z)
    (hphase : d.IsPhaseOne) : z = -((d.left.filter isArtificial).map x).sum := by
  have hrows : d.artificialRows.map (fun p => d.rowValue x (p.2 + 1))
      = d.artificialRows.map (fun p => x p.1) := by
    apply List.map_congr_left
    intro p hp
    obtain ⟨id, k⟩ := p
    have hk : d.left[k]? = some id :=
      List.mk_mem_zipIdx_iff_getElem?.1 (List.mem_of_mem_filter hp)
    exact (h.row k id hk).symm
  have hlabels : d.artificialRows.map (fun p => x p.1) = (d.left.filter isArtificial).map x := by
    have hfst : d.artificialRows.map Prod.fst = d.left.filter isArtificial := by
      show (d.left.zipIdx.filter (isArtificial ∘ Prod.fst)).map Prod.fst = _
      rw [← List.filter_map, List.zipIdx_map_fst]
    rw [← hfst, List.map_map]
    rfl
  have hzero := hphase.termSum_zero x d.terms fun t ht => snd_mem_of_mem_terms ht
  rw [h.objective]
  show d.tableau.rhs.coeff 0 + termSum d.terms x 0 = _
  rw [hzero, ← hlabels, ← hrows]
  rfl

theorem IsPhaseOne.filter_labels {d : Dictionary Rat} (h : d.IsPhaseOne) :
    d.labels.filter isArtificial = d.left.filter isArtificial := by
  have hright : d.right.filter isArtificial = [] := by
    rw [List.filter_eq_nil_iff]
    intro id hid
    simp [h.right id hid]
  unfold labels
  rw [List.filter_append, hright, List.append_nil]

/-- **No admissible assignment has a positive phase 1 objective**, and it
is zero exactly if all artificial variables are. -/
theorem Admissible.objective_phaseOne {d : Dictionary Rat} (hphase : d.IsPhaseOne)
    {gone : List Int} {x : Int → Rat} {z : Rat} (h : d.Admissible gone x z) :
    z ≤ 0 ∧ (z = 0 ↔ ∀ id ∈ d.labels.filter isArtificial, x id = 0) := by
  have hz := h.solves.objective_eq hphase
  have hnonneg : ∀ v ∈ (d.left.filter isArtificial).map x, 0 ≤ v := by
    intro v hv
    obtain ⟨id, hid, rfl⟩ := List.mem_map.1 hv
    exact h.nonneg id (List.mem_append_left _ (List.mem_of_mem_filter hid))
  rw [hphase.filter_labels, hz]
  refine ⟨neg_nonpos.2 (List.sum_nonneg hnonneg), ?_⟩
  rw [neg_eq_zero]
  constructor
  · intro hsum id hid
    exact List.all_zero_of_le_zero_le_of_sum_eq_zero hnonneg hsum (List.mem_map_of_mem hid)
  · intro hzero
    apply List.sum_eq_zero
    intro v hv
    obtain ⟨id, hid, rfl⟩ := List.mem_map.1 hv
    exact hzero id hid

end Dictionary

/-! ## §2. The verdict. -/

/-- **THE VERDICT OF INFEASIBILITY IS RIGHT EXACTLY BELOW ZERO.**  From a
valid phase 1 dictionary without negative right-hand sides, after any
history in exact arithmetic: if an invocation without objective tolerance
ends with the verdict that the problem is infeasible, the problem is
infeasible if and only if the reported objective is negative. -/
theorem History.isInfeasible_iff {d₀ d : Dictionary Rat} {ids : List Int}
    (hd : d₀.validate = .ok ()) (hf : d₀.Feasible) (hphase : d₀.IsPhaseOne)
    (h : History Settings.IsExact d₀ ids d) {γ : Type} [Source γ] (loop : Loop Rat γ)
    (hs : loop.settings.IsExact) (heps : loop.settings.epsObjective = 0) (clock : Nat → Bool)
    {o : Outcome Rat} (hr : (loop.run clock d).result = .ok o) (ho : o.isInfeasible = true) :
    ¬ d₀.Satisfiable ↔ o.objective < 0 := by
  have hsound₀ : d₀.Sound := ⟨Dictionary.validate_rat_iff.1 hd, hf⟩
  obtain ⟨hreach, hstatus, hobjective⟩ := h.run_spec hsound₀ loop hs clock hr
  have hsound := hreach.sound (fun _ hs => hs.tight) hsound₀
  have htransport := hreach.admissible_iff (fun _ hs => hs.prec) hsound₀.wellFormed
  have hoptimal : o.status = .optimal := by
    simp only [Outcome.isInfeasible, Bool.and_eq_true, beq_iff_eq] at ho
    exact ho.1
  rw [hoptimal] at hstatus
  constructor
  · intro hnone
    by_contra hge
    -- the basic solution has no artificial variable above zero
    have hbasic := (htransport _ _).2 (Dictionary.admissible_basicSolution hsound
      (hreach.not_mem_labels hsound₀.wellFormed))
    rw [← hobjective] at hbasic
    obtain ⟨hle, hzero⟩ := hbasic.objective_phaseOne hphase
    exact hnone ⟨_, _, hbasic.solves, hbasic.nonneg, hzero.1 (le_antisymm hle (not_lt.1 hge))⟩
  · intro hneg hsat
    obtain ⟨x, z, hx⟩ := hsat
    -- a solution of the problem proper would beat the optimum
    have hz : z = 0 := (hx.objective_phaseOne hphase).2.2 hx.gone
    have hgone : ∀ id ∈ ids ++ (loop.run clock d).journal.eliminations, x id = 0 := by
      intro id hid
      apply hx.gone
      rw [List.mem_filter]
      exact ⟨hreach.labels_perm.mem_iff.2 (List.mem_append_left _ hid),
        hreach.isArtificial id hid⟩
    have hadmissible := (htransport x z).1 ⟨hx.solves, hx.nonneg, hgone⟩
    have hle := hadmissible.le_of_noneImproves hsound.wellFormed hstatus
    have heps' : (loop.settings.limits Rat).epsObjective = 0 := heps
    rw [heps', zero_mul, add_zero, ← hobjective, hz] at hle
    exact absurd hneg (not_lt.2 hle)

/-- The row `x₁ + 2 = 0` with its artificial variable. -/
def Dictionary.contradiction : Dictionary Rat where
  tableau := ⟨⟨-2, [2]⟩, [⟨-1, [1]⟩], by decide⟩
  left := [-1]
  right := [1]
  artificials := 1

/-- A right verdict: the optimum is -2. -/
theorem History.isInfeasible_iff_contradiction :
    (Loop.exact.run (fun _ => false) Dictionary.contradiction).result
        = .ok ⟨.optimal, 0, 1, 1, -2⟩
      ∧ ¬ Dictionary.contradiction.Satisfiable := by
  have hexact : Loop.exact.settings.IsExact := ⟨rfl, rfl, le_refl 0⟩
  have hf : Dictionary.contradiction.Feasible := by
    show ∀ v ∈ [(2 : Rat)], 0 ≤ v
    norm_num
  have hphase : Dictionary.contradiction.IsPhaseOne := by
    constructor
    · decide
    · decide +kernel
  have hrun : (Loop.exact.run (fun _ => false) Dictionary.contradiction).result
      = .ok ⟨.optimal, 0, 1, 1, -2⟩ := by cbv
  have hneg : (-2 : Rat) < 0 := by norm_num
  refine ⟨hrun, ?_⟩
  exact (History.isInfeasible_iff (by rfl) hf hphase .start Loop.exact hexact rfl
    (fun _ => false) hrun rfl).2 hneg

/-- The equation `x₁ + x₂ = 2` twice, with two artificial variables. -/
def Dictionary.twiceTheSame : Dictionary Rat where
  tableau := ⟨⟨-4, [2, 2]⟩, [⟨2, [-1, -1]⟩, ⟨2, [-1, -1]⟩], by decide⟩
  left := [-1, -2]
  right := [1, 2]
  artificials := 2

/-- **A wrong verdict**: one of the two artificial variables is left at
value 0, and a problem with the solution `x₁ = 2` is called infeasible. -/
theorem Dictionary.twiceTheSame_isInfeasible :
    Dictionary.twiceTheSame.validate = .ok () ∧ Dictionary.twiceTheSame.Feasible
      ∧ Dictionary.twiceTheSame.IsPhaseOne
      ∧ (∃ o, (Loop.exact.run (fun _ => false) Dictionary.twiceTheSame).result = .ok o
        ∧ o.isInfeasible = true)
      ∧ Dictionary.twiceTheSame.Satisfiable := by
  have hrun : (Loop.exact.run (fun _ => false) Dictionary.twiceTheSame).result
      = .ok ⟨.optimal, 1, 1, 1, 0⟩ := by cbv
  refine ⟨by rfl, ?_, ⟨by decide, ?_⟩, ⟨_, hrun, rfl⟩, Pi.single 1 2, 0, ⟨?_, ?_⟩, ?_, ?_⟩
  · show ∀ v ∈ [(2 : Rat), 2], 0 ≤ v
    norm_num
  · decide +kernel
  · intro k id hid
    rcases k with - | - | k
    · obtain rfl : -1 = id := by simpa [Dictionary.twiceTheSame] using hid
      cbv
    · obtain rfl : -2 = id := by simpa [Dictionary.twiceTheSame] using hid
      cbv
    · simp [Dictionary.twiceTheSame] at hid
  · cbv
  · decide +kernel
  · decide +kernel

end DenseSimplex
