/-
  DenseSimplex.Proofs.Repricing
  ─────────────────────────────
  **THE TRUE OBJECTIVE, IN WHATEVER BASIS PHASE 1 ENDED.**

  Installing the true objective writes row 0 anew and nothing else.  For
  every assignment that solves the constraint rows, the new row 0 is

      rhs 0 + Σ_r  column r 0 · x (right r)  =  Σ_j  costs[j] · x (j + 1),

  the sum over the variables `j + 1` of the program that are present
  (`LinearProgram.structuralCost`): slacks and artificial variables cost
  nothing, whether they label rows or columns.  The new entries are
  computed from constraint rows and labels only, so that a second
  installation changes nothing (`LinearProgram.installObjective_spec`).

  All of this needs no more than a valid dictionary.  Every dictionary that
  is reached from the first one of a program is valid, and none of the
  program's variables has gone missing there.
-/
import DenseSimplex.Proofs.Trials

namespace DenseSimplex

namespace LinearProgram

/-! ## §1. What is left alone. -/

section

variable {ω τ : Type} [Scalar ω] [Element ω τ]

/-- A new objective row changes no constraint entry. -/
theorem entry?_installObjective_succ (p : LinearProgram ω) (d : Dictionary τ) (col k : Nat) :
    (p.installObjective d).tableau.entry? col (k + 1) = d.tableau.entry? col (k + 1) := by
  show ((d.tableau.mapColumns _ _).column? col).bind _ = (d.tableau.column? col).bind _
  rw [Tableau.column?_mapColumns]
  cases d.tableau.column? col with
  | none => rfl
  | some c => rfl

/-- **Installing the objective twice is installing it once**: a price does
not depend on the objective entry that it replaces. -/
theorem installObjective_installObjective (p : LinearProgram ω) (d : Dictionary τ) :
    p.installObjective (p.installObjective d) = p.installObjective d := by
  unfold installObjective Tableau.mapColumns
  simp only [List.mapIdx_mapIdx, Function.comp_def]
  rfl

end

/-! ## §2. The cost of the variables that are present. -/

variable (p : LinearProgram Rat)

/-- **The cost of the program's variables**, of those among some labels:
variable `j + 1` costs `costs[j]`. -/
def structuralCost (x : Int → Rat) (ids : List Int) : Rat :=
  ∑ j : Fin p.costs.length with (j.val : Int) + 1 ∈ ids, p.costs[j] * x (j.val + 1)

theorem exists_of_cost_ne_zero {id : Int} (h : p.cost id ≠ 0) :
    ∃ j : Fin p.costs.length, (j.val : Int) + 1 = id := by
  have hpos : 1 ≤ id := by
    by_contra hneg
    exact h (by unfold cost; rw [if_neg hneg])
  have hle : id ≤ p.costs.length := by
    by_contra hbig
    exact h (p.cost_of_length_lt (not_le.1 hbig))
  exact ⟨⟨id.toNat - 1, by omega⟩, by simp only; omega⟩

theorem cost_val_add_one (j : Fin p.costs.length) : p.cost ((j.val : Int) + 1) = p.costs[j] :=
  p.cost_succ j.isLt

/-- **Only the program's variables cost anything**, and none of them is
counted twice. -/
theorem totalCost_eq_structuralCost (x : Int → Rat) {ids : List Int} (h : ids.Nodup) :
    p.totalCost x ids = p.structuralCost x ids := by
  unfold totalCost structuralCost
  rw [← List.sum_toFinset _ h]
  symm
  apply Finset.sum_of_injOn fun j : Fin p.costs.length => (j.val : Int) + 1
  · intro i _ j _ hij
    have hval : (i.val : Int) + 1 = j.val + 1 := hij
    exact Fin.ext (by omega)
  · intro j hj
    simpa using hj
  · intro id hid hfree
    -- a label with a cost belongs to a variable of the program
    have hcost : p.cost id = 0 := by
      by_contra hne
      obtain ⟨j, rfl⟩ := p.exists_of_cost_ne_zero hne
      exact hfree ⟨j, by simpa using hid, rfl⟩
    rw [hcost, zero_mul]
  · intro j _
    rw [p.cost_val_add_one]

/-! ## §3. Every basis. -/

/-- What is reached from the first dictionary of a program is valid and
has all variables but artificial ones. -/
theorem valid_of_history {d₀ d : Dictionary Rat} (hd₀ : p.dictionary = .ok d₀)
    {P : Settings Rat → Prop} {ids : List Int} (h : History P d₀ ids d) :
    d.validate = .ok () ∧ ∀ id ∈ d₀.labels, isArtificial id = false → id ∈ d.labels := by
  obtain ⟨-, -, -, -, hwf⟩ := of_dictionary hd₀
  have hreach := h.reaches hwf
  refine ⟨Dictionary.validate_rat_iff.2 (hreach.wellFormed hwf), fun id hid hstructural => ?_⟩
  refine (List.mem_append.1 (hreach.labels_perm.mem_iff.1 hid)).resolve_left fun hgone => ?_
  rw [hreach.isArtificial id hgone] at hstructural
  cases hstructural

/-- **PRICES ARE RIGHT IN EVERY BASIS.**  For every program and every valid
dictionary, in exact arithmetic:

  * installing the objective leaves the labels, the count of artificial
    variables, the shape and every constraint entry alone;
  * row 0 has, for every assignment that solves the constraint rows, the
    cost of the program's variables that are present as its value;
  * installing the objective again changes nothing.

In particular this is so wherever steps and invocations lead from the first
dictionary of the program: dictionaries there are valid, and have all
variables of the first one that are not artificial. -/
theorem installObjective_spec :
    (∀ d : Dictionary Rat, d.validate = .ok () →
      ((p.installObjective d).left = d.left ∧ (p.installObjective d).right = d.right
        ∧ (p.installObjective d).artificials = d.artificials
        ∧ (p.installObjective d).tableau.height = d.tableau.height
        ∧ (p.installObjective d).tableau.width = d.tableau.width
        ∧ ∀ col k, (p.installObjective d).tableau.entry? col (k + 1)
            = d.tableau.entry? col (k + 1))
      ∧ (∀ x : Int → Rat, (∀ k id, d.left[k]? = some id → x id = d.rowValue x (k + 1)) →
          (p.installObjective d).rowValue x 0 = p.structuralCost x d.labels)
      ∧ p.installObjective (p.installObjective d) = p.installObjective d)
    ∧ ∀ (d₀ : Dictionary Rat), p.dictionary = .ok d₀ →
      ∀ (P : Settings Rat → Prop) (ids : List Int) (d : Dictionary Rat), History P d₀ ids d →
        d.validate = .ok () ∧ ∀ id ∈ d₀.labels, isArtificial id = false → id ∈ d.labels := by
  refine ⟨fun d hd => ⟨?_, fun x hx => ?_, p.installObjective_installObjective d⟩,
    fun d₀ hd₀ P ids d h => p.valid_of_history hd₀ h⟩
  · exact ⟨rfl, rfl, rfl, p.height_installObjective d, p.width_installObjective d,
      p.entry?_installObjective_succ d⟩
  · have hwf := Dictionary.validate_rat_iff.1 hd
    rw [rowValue_installObjective hwf hx, p.totalCost_eq_structuralCost x hwf.nodup]

end LinearProgram

/-- The segment's dictionary after phase 1, with `x₁ = 1 - x₂` in the
basis. -/
def Dictionary.segmentEnd : Dictionary Rat where
  tableau := ⟨⟨0, [0, 1, 1]⟩, [⟨0, [1, 0, -1]⟩], by decide⟩
  left := [3, 4, 1]
  right := [2]
  artificials := 0

/-- There the true objective is `1 / 4 + x₂ / 4`, and has the cost of the
middle of the segment as its value at the middle. -/
theorem LinearProgram.installObjective_spec_segment :
    (segment.installObjective .segmentEnd).tableau.objectiveRow = [1 / 4, 1 / 4]
      ∧ (segment.installObjective .segmentEnd).rowValue (fun id => if id = 4 then 1 else 1 / 2) 0
        = 3 / 8
      ∧ segment.installObjective (segment.installObjective .segmentEnd)
        = segment.installObjective .segmentEnd := by
  obtain ⟨hprices, hhistory⟩ := segment.installObjective_spec
  have hrun : (Loop.exact.run (fun _ => false) Dictionary.segment).result
      = .ok ⟨.feasible, 1, 1, 0, 0⟩ := by cbv
  have hend : (Loop.exact.run (fun _ => false) Dictionary.segment).dictionary
      = Dictionary.segmentEnd := by cbv
  obtain ⟨hvalid, -⟩ := hhistory Dictionary.segment (by rfl) (fun _ => True) _ _
    (.run .start Loop.exact trivial (fun _ => false) hrun)
  rw [hend] at hvalid
  obtain ⟨-, hcost, htwice⟩ := hprices _ hvalid
  refine ⟨by cbv, ?_, htwice⟩
  rw [hcost]
  · decide +kernel
  · intro k id hid
    have hk : k < 3 := (List.getElem?_eq_some_iff.1 hid).1
    interval_cases k <;> cases hid <;> decide +kernel

end DenseSimplex
