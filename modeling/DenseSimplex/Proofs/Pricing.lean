/-
  DenseSimplex.Proofs.Pricing
  ───────────────────────────
  **WRITING THE TRUE OBJECTIVE IN ANOTHER BASIS.**

  After phase 1 row 0 is replaced by the costs of the program, written in
  the basis that phase 1 ended in.  Each column gets its own cost plus what
  the basic variables cost that it brings with it,

      price c  =  cost own  +  Σ_k  cost (left k) · entry k,

  and the right-hand side gets the second part only.  So row 0 becomes

      Σ_k  cost (left k) · row k  +  Σ_r  cost (right r) · x (right r),

  and for every assignment that solves the constraint rows this is the
  total cost of all variables (`rowValue_installObjective`), whatever the
  basis is.  Constraint rows and labels stay what they were.
-/
import DenseSimplex.Proofs.Verdict
import DenseSimplex.Bench.Program

namespace DenseSimplex

namespace LinearProgram

variable (p : LinearProgram Rat) (d : Dictionary Rat)

/-! ## §1. What the basic variables cost. -/

/-- The total cost of some variables under an assignment. -/
def totalCost (x : Int → Rat) (ids : List Int) : Rat := (ids.map fun id => p.cost id * x id).sum

/-- What the rows cost, each at the cost of its basic variable. -/
def basicSum (value : Nat → Rat) : Rat :=
  (d.left.zipIdx.map fun r => p.cost r.1 * value (r.2 + 1)).sum

theorem basicSum_add_mul (f g : Nat → Rat) (v : Rat) :
    p.basicSum d (fun k => f k + g k * v) = p.basicSum d f + p.basicSum d g * v := by
  unfold basicSum
  rw [← List.sum_map_mul_right, ← List.sum_map_add]
  congr 1
  apply List.map_congr_left
  intro r _
  ring

/-- If the rows have the values of their basic variables, they cost as much
as these. -/
theorem basicSum_eq_totalCost {x : Int → Rat} {value : Nat → Rat}
    (h : ∀ k id, d.left[k]? = some id → x id = value (k + 1)) :
    p.basicSum d value = p.totalCost x d.left := by
  have hrows : d.left.zipIdx.map (fun r => p.cost r.1 * value (r.2 + 1))
      = d.left.zipIdx.map ((fun id => p.cost id * x id) ∘ Prod.fst) := by
    apply List.map_congr_left
    intro r hr
    rw [← h r.2 r.1 (List.mk_mem_zipIdx_iff_getElem?.1 hr)]
    rfl
  unfold basicSum totalCost
  rw [hrows, ← List.map_map, List.zipIdx_map_fst]

theorem foldl_price (rows : List (Rat × Rat)) (own : Rat) :
    rows.foldl (fun sum (entry, cost) => sum + cost * entry) own
      = own + (rows.map fun r => r.2 * r.1).sum := by
  induction rows generalizing own with
  | nil => simp
  | cons r rows ih =>
      rw [List.foldl_cons, ih, List.map_cons, List.sum_cons, add_assoc]

/-- **The price of a column**: its own cost, and what the basic variables
in its rows cost. -/
theorem price_eq {c : Column Rat} (hc : c.height = d.left.length) (own : Rat) :
    price (d.left.map p.cost) own c = own + p.basicSum d c.coeff := by
  have hrows : c.entries.zip (d.left.map p.cost)
      = d.left.zipIdx.map fun r => (c.coeff (r.2 + 1), p.cost r.1) := by
    apply List.ext_getElem?
    intro k
    rw [List.getElem?_map, List.getElem?_zipIdx]
    by_cases hk : k < c.height
    · have hleft : k < d.left.length := hc ▸ hk
      have hzip : (c.entries.zip (d.left.map p.cost))[k]?
          = some (c.coeff (k + 1), p.cost d.left[k]) := by
        rw [List.getElem?_zip_eq_some, List.getElem?_map, List.getElem?_eq_getElem hleft]
        exact ⟨Column.getElem?_eq_coeff hk, rfl⟩
      rw [hzip, List.getElem?_eq_getElem hleft, Nat.zero_add]
      rfl
    · have hzip : (c.entries.zip (d.left.map p.cost)).length ≤ k := by
        rw [List.length_zip]
        exact le_trans (min_le_left _ _) (not_lt.1 hk)
      rw [List.getElem?_eq_none hzip, List.getElem?_eq_none (hc ▸ not_lt.1 hk)]
      rfl
  show (c.entries.zip (d.left.map p.cost)).foldl (fun sum (entry, cost) => sum + cost * entry) own
    = _
  rw [foldl_price, hrows, List.map_map]
  rfl

/-! ## §2. The priced dictionary. -/

/-- A column with its price as objective entry. -/
def priced (own : Rat) (c : Column Rat) : Column Rat :=
  { c with objective := price (d.left.map p.cost) own c }

theorem rhs_installObjective :
    (p.installObjective d).tableau.rhs = p.priced d 0 d.tableau.rhs := rfl

/-- Every variable column is priced at the cost of its variable. -/
theorem terms_installObjective :
    (p.installObjective d).terms = d.terms.map fun t => (t.1, p.priced d (p.cost t.1) t.2) := by
  apply List.ext_getElem?
  intro j
  show (d.right.zip (d.tableau.columns.mapIdx _))[j]?
    = ((d.right.zip d.tableau.columns).map _)[j]?
  rw [List.getElem?_map, List.zip, List.getElem?_zipWith, List.getElem?_zipWith,
    List.getElem?_mapIdx]
  cases hid : d.right[j]? with
  | none => rfl
  | some id =>
      cases hc : d.tableau.columns[j]? with
      | none => rfl
      | some c =>
          have hown : (0 :: d.right.map p.cost).getD (j + 1) 0 = p.cost id := by
            rw [List.getD_cons_succ, List.getD_eq_getElem?_getD, List.getElem?_map, hid]
            rfl
          show some (id, p.priced d ((0 :: d.right.map p.cost).getD (j + 1) 0) c) = _
          rw [hown]
          rfl

theorem height_installObjective :
    (p.installObjective d).tableau.height = d.tableau.height :=
  d.tableau.height_mapColumns _ _

theorem width_installObjective : (p.installObjective d).tableau.width = d.tableau.width :=
  d.tableau.width_mapColumns _ _

variable {p d}

/-- **A new objective row leaves everything else sound.** -/
theorem sound_installObjective (hd : d.Sound) : (p.installObjective d).Sound := by
  refine ⟨⟨?_, ?_, hd.wellFormed.nodup, hd.wellFormed.count, ?_⟩, hd.feasible⟩
  · rw [height_installObjective]
    exact hd.wellFormed.left_length
  · rw [width_installObjective]
    exact hd.wellFormed.right_length
  · rw [width_installObjective]
    exact hd.wellFormed.count_le

/-- A constraint row does not see the new objective. -/
theorem rowValue_installObjective_succ (x : Int → Rat) (k : Nat) :
    (p.installObjective d).rowValue x (k + 1) = d.rowValue x (k + 1) := by
  unfold Dictionary.rowValue Dictionary.termSum
  rw [terms_installObjective, List.map_map]
  rfl

/-- Row 0 of a priced dictionary, on a part of the columns. -/
theorem termSum_priced (hd : d.WellFormed) (x : Int → Rat) (ts : List (Int × Column Rat))
    (hts : ∀ t ∈ ts, t.2 ∈ d.tableau.columns) :
    (p.priced d 0 d.tableau.rhs).coeff 0
        + Dictionary.termSum (ts.map fun t => (t.1, p.priced d (p.cost t.1) t.2)) x 0
      = p.basicSum d (fun k => d.tableau.rhs.coeff k + Dictionary.termSum ts x k)
        + p.totalCost x (ts.map Prod.fst) := by
  have hprice : ∀ c ∈ d.tableau.allColumns, ∀ own,
      (p.priced d own c).coeff 0 = own + p.basicSum d c.coeff := by
    intro c hc own
    apply p.price_eq
    rw [hd.left_length]
    rcases List.mem_cons.1 hc with rfl | hc
    · rfl
    · exact d.tableau.uniform c hc
  induction ts with
  | nil =>
      rw [hprice _ List.mem_cons_self]
      simp [Dictionary.termSum, totalCost]
  | cons t ts ih =>
      obtain ⟨ht, hts⟩ := List.forall_mem_cons.1 hts
      have hsplit : (fun k => d.tableau.rhs.coeff k + Dictionary.termSum (t :: ts) x k)
          = fun k => (d.tableau.rhs.coeff k + Dictionary.termSum ts x k)
            + t.2.coeff k * x t.1 := by
        funext k
        rw [Dictionary.termSum_cons]
        ring
      have htotal : p.totalCost x ((t :: ts).map Prod.fst)
          = p.cost t.1 * x t.1 + p.totalCost x (ts.map Prod.fst) := by
        simp [totalCost]
      rw [List.map_cons, Dictionary.termSum_cons, hprice _ (List.mem_cons_of_mem _ ht), hsplit,
        p.basicSum_add_mul, htotal]
      linear_combination ih hts

/-- **ROW 0 IS THE TOTAL COST.**  For every assignment that solves the
constraint rows, the objective row that is installed has the total cost of
all variables as its value, in any basis. -/
theorem rowValue_installObjective (hd : d.WellFormed) {x : Int → Rat}
    (hrows : ∀ k id, d.left[k]? = some id → x id = d.rowValue x (k + 1)) :
    (p.installObjective d).rowValue x 0 = p.totalCost x d.labels := by
  have hright : d.terms.map Prod.fst = d.right := List.map_fst_zip (le_of_eq hd.right_length)
  have hsum := termSum_priced (p := p) hd x d.terms fun t ht => Dictionary.snd_mem_of_mem_terms ht
  have hbasic : p.basicSum d (d.rowValue x) = p.totalCost x d.left :=
    p.basicSum_eq_totalCost d hrows
  have hlabels : p.totalCost x d.labels = p.totalCost x d.left + p.totalCost x d.right := by
    unfold totalCost Dictionary.labels
    rw [List.map_append, List.sum_append]
  unfold Dictionary.rowValue
  rw [rhs_installObjective, terms_installObjective, hsum, hright, hlabels, ← hbasic]
  rfl

/-- **What solves a priced dictionary**: what solves the constraint rows,
with the total cost as objective. -/
theorem solves_installObjective_iff (hd : d.WellFormed) (x : Int → Rat) (z : Rat) :
    (p.installObjective d).Solves x z ↔
      (∀ k id, d.left[k]? = some id → x id = d.rowValue x (k + 1))
        ∧ z = p.totalCost x d.labels := by
  constructor
  · intro h
    have hrows : ∀ k id, d.left[k]? = some id → x id = d.rowValue x (k + 1) := by
      intro k id hid
      rw [← rowValue_installObjective_succ (p := p)]
      exact h.row k id hid
    refine ⟨hrows, ?_⟩
    rw [h.objective, rowValue_installObjective hd hrows]
  · intro h
    obtain ⟨hrows, hz⟩ := h
    refine ⟨fun k id hid => ?_, ?_⟩
    · rw [rowValue_installObjective_succ]
      exact hrows k id hid
    · rw [rowValue_installObjective hd hrows, hz]

end LinearProgram

end DenseSimplex
