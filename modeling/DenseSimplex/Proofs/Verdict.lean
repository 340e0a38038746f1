/-
  DenseSimplex.Proofs.Verdict
  ───────────────────────────
  **VERDICTS ARE TRUE OF THE PROBLEM THAT WAS HANDED IN.**

  The problem of a dictionary is to make the objective large over its
  admissible assignments: those that solve its rows, are non-negative, and
  are zero on the artificial variables that were eliminated.  Pivots keep
  the problem (`Reaches.admissible_iff`), so a verdict can be checked on
  the dictionary where an invocation ended:

      optimal     z  =  objective + Σ_r  c_r · x (right r)
                     ≤  objective + eps · Σ_r  x (right r),
                  and the basic solution attains the objective;

      unbounded   a column with objective entry above eps ≥ 0 and no
                  negative entry is a ray: its variable can be any t ≥ 0,
                  and the objective grows with it.

  Assignments are built from the values of the columns' variables by
  computing the rows (`Dictionary.completion`); zeros give the basic
  solution.
-/
import DenseSimplex.Proofs.Feasibility

namespace DenseSimplex

namespace Dictionary

/-! ## §1. Admissible assignments. -/

/-- **An admissible assignment**, with its objective value: it solves the
dictionary, no variable is negative, and those in `gone` are zero. -/
structure Admissible (d : Dictionary Rat) (gone : List Int) (x : Int → Rat) (z : Rat) : Prop where
  solves : d.Solves x z
  nonneg : ∀ id ∈ d.labels, 0 ≤ x id
  gone : ∀ id ∈ gone, x id = 0

/-- **Moves keep the problem**, once the variables that they eliminate are
zero. -/
theorem Reaches.admissible_iff {P : Settings Rat → Prop} (hP : ∀ s, P s → s.prec = 0)
    {d₀ d : Dictionary Rat} {ids : List Int} (h : Reaches P d₀ ids d) (hd : d₀.WellFormed)
    (x : Int → Rat) (z : Rat) : d₀.Admissible ids x z ↔ d.Admissible ids x z := by
  have hlabels := h.labels_perm
  have hrestricts := h.restricts hP hd
  constructor
  · intro hx
    refine ⟨?_, fun id hid => ?_, hx.gone⟩
    · rw [hrestricts]
      exact ⟨x, hx.solves, hx.gone, fun _ _ => rfl⟩
    · exact hx.nonneg id (hlabels.mem_iff.2 (List.mem_append_right _ hid))
  · intro hx
    -- on the labels of the first dictionary its solution can only be `x`
    obtain ⟨y, hy, hzero, hagree⟩ := (hrestricts x z).1 hx.solves
    refine ⟨hy.congr fun id hid => ?_, fun id hid => ?_, hx.gone⟩
    · rcases List.mem_append.1 (hlabels.mem_iff.1 hid) with hid | hid
      · rw [hzero id hid, hx.gone id hid]
      · exact hagree id hid
    · rcases List.mem_append.1 (hlabels.mem_iff.1 hid) with hid | hid
      · rw [hx.gone id hid]
      · exact hx.nonneg id hid

/-! ## §2. Completing an assignment. -/

/-- The assignment with given values for the columns' variables, those of
the rows computed. -/
def completion (d : Dictionary Rat) (free : Int → Rat) (id : Int) : Rat :=
  if id ∈ d.left then d.rowValue free (d.left.idxOf id + 1) else free id

/-- **The basic solution**: the variables of the rows have the right-hand
sides as values, and all other variables are zero. -/
def basicSolution (d : Dictionary Rat) (id : Int) : Rat :=
  if id ∈ d.left then d.tableau.rhs.coeff (d.left.idxOf id + 1) else 0

theorem rowValue_of_zero {d : Dictionary Rat} {x : Int → Rat} (h : ∀ id ∈ d.right, x id = 0)
    (row : Nat) : d.rowValue x row = d.tableau.rhs.coeff row := by
  have hsum : termSum d.terms x row = 0 := by
    apply List.sum_eq_zero
    intro v hv
    obtain ⟨t, ht, rfl⟩ := List.mem_map.1 hv
    rw [h t.1 (fst_mem_of_mem_terms ht), mul_zero]
  unfold rowValue
  rw [hsum, add_zero]

theorem completion_zero (d : Dictionary Rat) : d.completion (fun _ => 0) = d.basicSolution := by
  funext id
  unfold completion basicSolution
  rw [rowValue_of_zero (fun _ _ => rfl)]

theorem completion_of_not_mem {d : Dictionary Rat} {free : Int → Rat} {id : Int}
    (h : id ∉ d.left) : d.completion free id = free id := if_neg h

theorem completion_of_getElem? {d : Dictionary Rat} (hd : d.WellFormed) {free : Int → Rat}
    {k : Nat} {id : Int} (h : d.left[k]? = some id) :
    d.completion free id = d.rowValue free (k + 1) := by
  obtain ⟨hk, rfl⟩ := List.getElem?_eq_some_iff.1 h
  have hnodup : d.left.Nodup := (List.nodup_append.1 hd.nodup).1
  unfold completion
  rw [if_pos (List.getElem_mem hk), hnodup.idxOf_getElem]

/-- **A completed assignment solves the dictionary.** -/
theorem solves_completion {d : Dictionary Rat} (hd : d.WellFormed) (free : Int → Rat) :
    d.Solves (d.completion free) (d.rowValue free 0) := by
  have hvalue : ∀ row, d.rowValue (d.completion free) row = d.rowValue free row := by
    intro row
    apply rowValue_congr
    intro id hid
    apply completion_of_not_mem
    intro hleft
    exact hd.not_mem_right hleft hid
  refine ⟨fun k id hid => ?_, (hvalue 0).symm⟩
  rw [completion_of_getElem? hd hid, hvalue]

/-- A completed assignment is admissible if what it was given and what was
computed is. -/
theorem admissible_completion {d : Dictionary Rat} (hd : d.WellFormed) {gone : List Int}
    {free : Int → Rat} (hgone : ∀ id ∈ gone, id ∉ d.labels ∧ free id = 0)
    (hfree : ∀ id ∈ d.right, 0 ≤ free id) (hrows : ∀ k, 0 ≤ d.rowValue free (k + 1)) :
    d.Admissible gone (d.completion free) (d.rowValue free 0) := by
  refine ⟨solves_completion hd free, fun id hid => ?_, fun id hid => ?_⟩
  -- a label is that of a row, whose value is computed, or that of a column
  · by_cases hleft : id ∈ d.left
    · obtain ⟨k, hk⟩ := List.getElem?_of_mem hleft
      rw [completion_of_getElem? hd hk]
      exact hrows k
    · rw [completion_of_not_mem hleft]
      exact hfree id ((List.mem_append.1 hid).resolve_left hleft)
  · obtain ⟨hlabel, hzero⟩ := hgone id hid
    rw [completion_of_not_mem fun hleft => hlabel (List.mem_append_left _ hleft), hzero]

/-! ## §3. The two verdicts. -/

/-- **The basic solution of a feasible dictionary is admissible**, and its
value is the objective. -/
theorem admissible_basicSolution {d : Dictionary Rat} (hd : d.Sound) {gone : List Int}
    (hgone : ∀ id ∈ gone, id ∉ d.labels) : d.Admissible gone d.basicSolution d.objective := by
  have hrow : ∀ row, d.rowValue (fun _ => 0) row = d.tableau.rhs.coeff row :=
    rowValue_of_zero fun _ _ => rfl
  have h : d.Admissible gone (d.completion fun _ => 0) (d.rowValue (fun _ => 0) 0) := by
    apply admissible_completion hd.wellFormed
    · exact fun id hid => ⟨hgone id hid, rfl⟩
    · exact fun _ _ => le_refl 0
    · intro k
      rw [hrow]
      exact feasible_iff.1 hd.feasible k
  rw [completion_zero, hrow] at h
  exact h

theorem termSum_le {ts : List (Int × Column Rat)} {x : Int → Rat} {row : Nat} {eps : Rat}
    (hcoeff : ∀ t ∈ ts, t.2.coeff row ≤ eps) (hx : ∀ t ∈ ts, 0 ≤ x t.1) :
    termSum ts x row ≤ eps * (ts.map fun t => x t.1).sum := by
  induction ts with
  | nil => simp [termSum]
  | cons t ts ih =>
      obtain ⟨hc, hcoeff⟩ := List.forall_mem_cons.1 hcoeff
      obtain ⟨ht, hx⟩ := List.forall_mem_cons.1 hx
      have hhead : t.2.coeff row * x t.1 ≤ eps * x t.1 := mul_le_mul_of_nonneg_right hc ht
      have htail := ih hcoeff hx
      rw [termSum_cons, List.map_cons, List.sum_cons, mul_add]
      linarith

/-- **Where no column improves, the objective bounds every admissible
value**, up to the tolerance. -/
theorem Admissible.le_of_noneImproves {d : Dictionary Rat} (hd : d.WellFormed) {gone : List Int}
    {x : Int → Rat} {z : Rat} (h : d.Admissible gone x z) {limits : Limits Rat}
    (hnone : NoneImproves limits d.tableau.columns) :
    z ≤ d.objective + limits.epsObjective * (d.right.map x).sum := by
  -- every column has one variable
  have hfst : d.terms.map (fun t => x t.1) = d.right.map x := by
    have hlength : d.right.length ≤ d.tableau.columns.length := le_of_eq hd.right_length
    rw [← List.map_fst_zip hlength, List.map_map]
    rfl
  have hsum : termSum d.terms x 0 ≤ limits.epsObjective * (d.right.map x).sum := by
    rw [← hfst]
    apply termSum_le
    · exact fun t ht => hnone t.2 (snd_mem_of_mem_terms ht)
    · exact fun t ht => h.nonneg t.1 (List.mem_append_right _ (fst_mem_of_mem_terms ht))
  rw [h.solves.objective]
  show d.tableau.rhs.coeff 0 + _ ≤ _
  exact add_le_add_right hsum _

/-- The value of a row if one column's variable has a value and those of
the others are zero. -/
theorem rowValue_single {d : Dictionary Rat} (hd : d.WellFormed) {j : Nat} {id : Int}
    {c : Column Rat} (hid : d.right[j]? = some id) (hc : d.tableau.columns[j]? = some c) (t : Rat)
    (row : Nat) :
    d.rowValue (Pi.single id t) row = d.tableau.rhs.coeff row + c.coeff row * t := by
  have hfresh : id ∉ (d.forgotten j).labels := not_mem_labels_forgotten hd.nodup hid
  have hrest : (d.forgotten j).rowValue (Pi.single id t) row = d.tableau.rhs.coeff row := by
    apply rowValue_of_zero
    intro i hi
    apply Pi.single_eq_of_ne
    rintro rfl
    exact hfresh (List.mem_append_right _ hi)
  rw [rowValue_eq_forgotten hid hc, hrest, Pi.single_eq_same]

/-- A column that nothing bounds has no negative entry. -/
theorem coeff_nonneg_of_leavingRow_eq_none {d : Dictionary Rat} (hd : d.WellFormed)
    {limits : Limits Rat} {c : Column Rat} (hc : c ∈ d.tableau.columns)
    (htol : limits.pivotTol = 0)
    (h : leavingRow limits c.entries d.tableau.rhs.entries d.left = none) (k : Nat) :
    0 ≤ c.coeff (k + 1) := by
  have hheight : c.entries.length = d.tableau.height := d.tableau.uniform c hc
  rw [leavingRow_eq_none_iff hheight.symm (by rw [hd.left_length, hheight])] at h
  by_cases hk : k < c.height
  · have hge := h _ (List.mem_of_getElem? (Column.getElem?_eq_coeff hk))
    rwa [htol, neg_zero, not_lt] at hge
  · rw [Column.coeff_of_height_le (not_lt.1 hk)]

/-- **Along a column that nothing bounds the objective grows for ever.** -/
theorem exists_admissible_gt {d : Dictionary Rat} (hd : d.Sound) {limits : Limits Rat} {col : Nat}
    (h : IsUnbounded limits d.tableau.rhs.entries d.left 1 d.tableau.columns col)
    (htol : limits.pivotTol = 0) (heps : 0 ≤ limits.epsObjective) {gone : List Int}
    (hgone : ∀ id ∈ gone, id ∉ d.labels) (bound : Rat) :
    ∃ x z, d.Admissible gone x z ∧ bound < z := by
  obtain ⟨j, c, hc, -, himproves, hnone⟩ := h
  obtain ⟨id, hid⟩ := hd.wellFormed.exists_right hc
  have hobjective : 0 < c.objective := lt_of_le_of_lt heps (not_le.1 himproves)
  have hentries : ∀ k, 0 ≤ c.coeff (k + 1) :=
    coeff_nonneg_of_leavingRow_eq_none hd.wellFormed (List.mem_of_getElem? hc) htol hnone
  -- far enough along the ray
  obtain ⟨t, ht, hfar⟩ : ∃ t, 0 ≤ t ∧ bound < d.objective + c.objective * t := by
    refine ⟨max 0 ((bound - d.objective) / c.objective) + 1, ?_, ?_⟩
    · have hmax := le_max_left 0 ((bound - d.objective) / c.objective)
      linarith
    · have hmax := le_max_right 0 ((bound - d.objective) / c.objective)
      rw [div_le_iff₀ hobjective] at hmax
      linarith
  have hrow := rowValue_single hd.wellFormed hid hc t
  have hadmissible : d.Admissible gone (d.completion (Pi.single id t))
      (d.rowValue (Pi.single id t) 0) := by
    apply admissible_completion hd.wellFormed
    · intro i hi
      refine ⟨hgone i hi, ?_⟩
      apply Pi.single_eq_of_ne
      rintro rfl
      exact hgone i hi (List.mem_append_right _ (List.mem_of_getElem? hid))
    · intro i _
      rw [Pi.single_apply]
      split
      · exact ht
      · exact le_refl 0
    · intro k
      rw [hrow]
      exact add_nonneg (feasible_iff.1 hd.feasible k) (mul_nonneg (hentries k) ht)
  refine ⟨_, _, hadmissible, ?_⟩
  rw [hrow]
  exact hfar

/-! ## §4. Verdicts and histories. -/

end Dictionary

/-- Exact arithmetic: nothing is snapped, every negative entry bounds a
step, and only columns with a positive objective entry enter. -/
structure Settings.IsExact (s : Settings Rat) : Prop where
  prec : s.prec = 0
  pivotTol : s.pivotTol = 0
  epsObjective : 0 ≤ s.epsObjective

theorem Settings.IsExact.tight {s : Settings Rat} (h : s.IsExact) : s.Tight :=
  ⟨h.pivotTol, le_of_eq h.prec.symm⟩

/-- **Where an invocation ends after a history**: at a dictionary that
moves lead to, of which its status is true and whose objective it
reports. -/
theorem History.run_spec {d₀ d : Dictionary Rat} {ids : List Int} (hd : d₀.Sound)
    (h : History Settings.IsExact d₀ ids d) {γ : Type} [Source γ] (loop : Loop Rat γ)
    (hs : loop.settings.IsExact) (clock : Nat → Bool) {o : Outcome Rat}
    (hr : (loop.run clock d).result = .ok o) :
    Dictionary.Reaches Settings.IsExact d₀ (ids ++ (loop.run clock d).journal.eliminations)
        (loop.run clock d).dictionary
      ∧ o.status.HoldsAt loop.settings (loop.run clock d).dictionary
      ∧ o.objective = (loop.run clock d).dictionary.objective := by
  have hbefore := h.reaches hd.wellFormed
  obtain ⟨hreach, hstatus, -, hobjective⟩ :=
    loop.run_reaches clock (hbefore.wellFormed hd.wellFormed) hr
  refine ⟨hbefore.trans (hreach.mono ?_), hstatus, hobjective⟩
  rintro s rfl
  exact hs

/-- **THE VERDICTS ARE TRUE.**  After any history from a valid dictionary
without negative right-hand sides, in exact arithmetic:

  * if an invocation ends with `optimal`, the basic solution is admissible
    for the first dictionary and has the reported objective, and no
    admissible assignment has a better one, up to the tolerance;
  * if it ends with `unbounded`, admissible assignments of the first
    dictionary have objectives beyond every bound. -/
theorem History.verdicts_hold {d₀ d : Dictionary Rat} {ids : List Int}
    (hd : d₀.validate = .ok ()) (hf : d₀.Feasible) (h : History Settings.IsExact d₀ ids d)
    {γ : Type} [Source γ] (loop : Loop Rat γ) (hs : loop.settings.IsExact) (clock : Nat → Bool)
    {o : Outcome Rat} (hr : (loop.run clock d).result = .ok o) :
    (o.status = .optimal →
      d₀.Admissible (ids ++ (loop.run clock d).journal.eliminations)
          (loop.run clock d).dictionary.basicSolution o.objective
        ∧ ∀ x z, d₀.Admissible (ids ++ (loop.run clock d).journal.eliminations) x z →
            z ≤ o.objective + loop.settings.epsObjective
              * ((loop.run clock d).dictionary.right.map x).sum)
      ∧ (o.status = .unbounded →
        ∀ bound, ∃ x z, d₀.Admissible (ids ++ (loop.run clock d).journal.eliminations) x z
          ∧ bound < z) := by
  have hsound₀ : d₀.Sound := ⟨Dictionary.validate_rat_iff.1 hd, hf⟩
  obtain ⟨hreach, hstatus, hobjective⟩ := h.run_spec hsound₀ loop hs clock hr
  have hsound := hreach.sound (fun _ hs => hs.tight) hsound₀
  have hgone := hreach.not_mem_labels hsound₀.wellFormed
  have htransport := hreach.admissible_iff (fun _ hs => hs.prec) hsound₀.wellFormed
  constructor
  · intro hoptimal
    rw [hoptimal] at hstatus
    rw [hobjective]
    refine ⟨?_, fun x z hx => ?_⟩
    · rw [htransport]
      exact Dictionary.admissible_basicSolution hsound hgone
    · rw [htransport] at hx
      exact hx.le_of_noneImproves hsound.wellFormed hstatus
  · intro hunbounded bound
    rw [hunbounded] at hstatus
    obtain ⟨col, hcol⟩ := hstatus
    obtain ⟨x, z, hx, hz⟩ := Dictionary.exists_admissible_gt hsound hcol hs.pivotTol
      hs.epsObjective hgone bound
    exact ⟨x, z, (htransport x z).2 hx, hz⟩

/-- The row `x₂ = 1 + x₁` with objective `x₁`. -/
def Dictionary.oneRay : Dictionary Rat where
  tableau := ⟨⟨0, [1]⟩, [⟨1, [1]⟩], by decide⟩
  left := [2]
  right := [1]
  artificials := 0

/-- A loop that goes on into phase 2. -/
def Loop.onward : Loop Rat (Nat → UInt64) :=
  { Loop.exact with settings := { Settings.exact with continueAfterFeasible := true } }

/-- The equation has an optimum, found after its artificial variable was
eliminated, and the ray has none. -/
theorem History.verdicts_hold_oneEquation_oneRay :
    (Dictionary.oneEquation.Admissible [-1]
          (Loop.onward.run (fun _ => false) Dictionary.oneEquation).dictionary.basicSolution 0
        ∧ ∀ x z, Dictionary.oneEquation.Admissible [-1] x z → z ≤ 0)
      ∧ ∀ bound, ∃ x z, Dictionary.oneRay.Admissible [] x z ∧ bound < z := by
  have hexact : Loop.onward.settings.IsExact := ⟨rfl, rfl, le_refl 0⟩
  constructor
  · have hf : Dictionary.oneEquation.Feasible := by
      show ∀ v ∈ [(2 : Rat), 3], 0 ≤ v
      norm_num
    have hrun : (Loop.onward.run (fun _ => false) Dictionary.oneEquation).result
        = .ok ⟨.optimal, 1, 1, 0, 0⟩ := by cbv
    have hids : ([] : List Int)
        ++ (Loop.onward.run (fun _ => false) Dictionary.oneEquation).journal.eliminations
          = [-1] := by cbv
    obtain ⟨hbasic, hbest⟩ :=
      (History.verdicts_hold (by rfl) hf .start Loop.onward hexact (fun _ => false) hrun).1 rfl
    rw [hids] at hbasic hbest
    refine ⟨hbasic, fun x z hx => ?_⟩
    have heps : Loop.onward.settings.epsObjective = 0 := rfl
    have h := hbest x z hx
    rwa [heps, zero_mul, add_zero] at h
  · have hf : Dictionary.oneRay.Feasible := by
      show ∀ v ∈ [(1 : Rat)], 0 ≤ v
      norm_num
    have hrun : (Loop.onward.run (fun _ => false) Dictionary.oneRay).result
        = .ok ⟨.unbounded, 0, 1, 0, 0⟩ := by cbv
    have hids : ([] : List Int)
        ++ (Loop.onward.run (fun _ => false) Dictionary.oneRay).journal.eliminations = [] := by cbv
    have hray :=
      (History.verdicts_hold (by rfl) hf .start Loop.onward hexact (fun _ => false) hrun).2 rfl
    rw [hids] at hray
    exact hray

end DenseSimplex
