/-
  DenseSimplex.Proofs.Faults
  ──────────────────────────
  **ONLY NUMBERS CAN STOP A STEP.**

  A step reads labels and entries by their index, pivots on an element that
  must not be zero, and forgets a column that must hold an artificial
  variable.  None of this can fail.  Let a valid dictionary be given, and
  let checked steps, passes and invocations without a fault lead from it to
  another one (`Continues`):

      Continues Settings.Checked d₀ d  →  d is valid

  In a valid dictionary every row and every column has its label, and a
  pivot that the scan found can be made (`Choice.Admitted`).  What is left
  for a step to stop at are two findings about numbers (`Fault.Numerical`):
  a right-hand side below the tolerance, and an entry that is not finite.
  The one fault beside them is a counter that has run through all words of
  a machine (`Continues.only_numbers_fail`).

  Of the arithmetic it is assumed that a number below minus a non-negative
  one can be told from zero (`Element.TellsZero`); sums and products may be
  anything.  Rationals and doubles are such numbers.
-/
import DenseSimplex.Proofs.Invocations
import DenseSimplex.Proofs.Tolerance
import DenseSimplex.Proofs.WorkingPrecision

namespace DenseSimplex

/-! ## §1. Arithmetic that can tell zero. -/

/-- **What is below minus a non-negative number is not zero**, and
narrowing a threshold does not make it negative.  Nothing is said of sums,
products and quotients. -/
structure Element.TellsZero (ω τ : Type) [Scalar ω] [Scalar τ] [Element ω τ] : Prop where
  not_zero : ∀ {t v : τ}, 0 ≤ t → v < -t → (v == 0) = false
  narrow_nonneg : ∀ {t : ω}, Settings.isSound t = true → (0 : τ) ≤ narrow t

/-- Rationals tell zero. -/
theorem Element.tellsZero_rat : Element.TellsZero Rat Rat where
  not_zero := by
    intro t v ht hv
    have hneg : v < 0 := hv.trans_le (neg_nonpos.2 ht)
    exact beq_eq_false_iff_ne.2 hneg.ne
  narrow_nonneg := by
    intro t ht
    have hsound : (true && !decide (t < 0)) = true := ht
    have hnonneg : 0 ≤ t := by simpa using hsound
    exact hnonneg

/-- Doubles tell zero, infinities included. -/
theorem Element.tellsZero_float : Element.TellsZero Float Float where
  not_zero := by
    intro t v ht hv
    have hzero : (Binary.datum (0 : Float)).rank = 0 := by rw [Double.datum_zero]; rfl
    have hrank : (Binary.datum (0 : Float)).rank ≤ (Binary.datum t).rank := (Double.le_iff.1 ht).2
    have hlt := (Double.lt_iff.1 hv).2
    rw [hzero] at hrank
    rw [Double.rank_datum_neg] at hlt
    -- equal numbers have equal ranks, and this one is negative
    rw [Bool.eq_false_iff]
    intro heq
    have hsame : (Binary.datum v).rank = (Binary.datum (0 : Float)).rank :=
      (Double.beq_iff.1 heq).2
    omega
  narrow_nonneg := by
    intro t ht
    unfold Settings.isSound at ht
    rw [Bool.and_eq_true, Bool.not_eq_true', decide_eq_false_iff_not] at ht
    obtain ⟨hfinite, hnonneg⟩ := ht
    exact Double.comparable_isNumber.of_not_lt (Double.isNumber_of_isFinite Double.isFinite_zero)
      (Double.isNumber_of_isFinite hfinite) hnonneg

/-- The two findings about numbers that stop a step: a right-hand side
below the tolerance, and an entry that is infinite or not a number. -/
inductive Fault.Numerical {τ : Type} : Fault τ → Prop where
  | negativeRhs (index : Nat) (value : τ) (row col : Nat) :
      Numerical (.negativeRhs index value row col)
  | nonFinite (row col col' row' : Nat) : Numerical (.corrupted row col (.nonFinite col' row'))

/-- Settings that make sense, with every pivot checked. -/
structure Settings.Checked {ω : Type} [Scalar ω] (s : Settings ω) : Prop where
  valid : s.validate = .ok ()
  checks : s.checkInvariants = true

variable {ω τ γ : Type} [Scalar ω] [Scalar τ] [Element ω τ]

/-! ## §2. A pivot that was found. -/

/-- **A pivot that can be made.**  Its place is a constraint row and a
variable column, with an element that is finite and not zero; the tableau
can be updated, the labels exchanged and the column of an artificial
variable forgotten; and of the dictionary after it only an entry can be at
fault. -/
structure Choice.Admitted (s : Settings ω) (d : Dictionary τ) (c : Choice τ) : Prop where
  row : 1 ≤ c.row ∧ c.row ≤ d.tableau.height
  col : 1 ≤ c.col ∧ c.col ≤ d.tableau.width
  element : d.tableau.get c.col c.row = .ok c.value
  ne_zero : (c.value == 0) = false
  isFinite : Scalar.isFinite c.value = true
  made : ∃ tableau after eliminated,
    d.tableau.pivot (s.elimination τ) c.row c.col = .ok (c.value, tableau)
      ∧ ({ d with tableau } : Dictionary τ).relabelled c.row c.col = .ok (after, eliminated)
      ∧ ∀ e, after.validate = .error e → ∃ col row, e = .nonFinite col row

namespace Dictionary

variable {d : Dictionary τ}

omit [Scalar τ] in
/-- In a well-formed dictionary every row and every column has its
label. -/
theorem WellFormed.exists_label (hd : d.WellFormed) :
    (∀ row, 1 ≤ row → row ≤ d.tableau.height → ∃ id, d.leftLabel row = .ok id)
      ∧ ∀ col, 1 ≤ col → col ≤ d.tableau.width → ∃ id, d.rightLabel col = .ok id := by
  constructor
  · intro row hpos hle
    obtain ⟨k, rfl⟩ := Nat.exists_eq_add_of_le' hpos
    rw [← hd.left_length] at hle
    exact ⟨d.left[k], labelAt_succ (List.getElem?_eq_getElem hle)⟩
  · intro col hpos hle
    obtain ⟨k, rfl⟩ := Nat.exists_eq_add_of_le' hpos
    rw [← hd.right_length] at hle
    exact ⟨d.right[k], labelAt_succ (List.getElem?_eq_getElem hle)⟩

/-- A well-formed dictionary that is not valid has an entry that is not
finite. -/
theorem WellFormed.nonFinite_of_validate (hd : d.WellFormed) {e : InputError}
    (h : d.validate = .error e) : ∃ col row, e = .nonFinite col row := by
  rw [hd.validate_eq] at h
  split at h
  next col row _ =>
    cases h
    exact ⟨col, row, rfl⟩
  next => cases h

variable {q : d.Place} {s : Settings ω} {c : Choice τ}

/-- The element of a chosen place is finite, and it is not zero. -/
theorem Place.Chosen.element_good (hτ : Element.TellsZero ω τ) (hs : s.validate = .ok ())
    (hd : d.validate = .ok ()) (h : q.Chosen (s.limits τ) c) :
    (q.element == 0) = false ∧ Scalar.isFinite q.element = true := by
  constructor
  · exact hτ.not_zero (hτ.narrow_nonneg (Settings.isSound_of_validate hs .pivotTol)) h.element_lt
  · exact Tableau.isFinite_of_findNonFinite (validate_eq_ok_iff.1 hd).2
      (List.mem_cons_of_mem _ (List.mem_of_getElem? q.column_at))
      (List.mem_of_getElem? q.element_at)

/-- **A pivot at a chosen place can be made.** -/
theorem Place.Chosen.admitted (hτ : Element.TellsZero ω τ) (hs : s.validate = .ok ())
    (hd : d.validate = .ok ()) (h : q.Chosen (s.limits τ) c) : c.Admitted s d := by
  have hwf := (validate_eq_ok_iff.1 hd).1
  obtain ⟨hzero, hfinite⟩ := h.element_good hτ hs hd
  obtain ⟨hrow, hcol, hvalue⟩ := h.row_col
  have hcount : isArtificial q.leaving = true → d.artificials ≠ 0 :=
    hwf.artificials_ne_zero (List.mem_append_left _ (List.mem_of_getElem? q.leaving_at))
  have hpivot : d.tableau.pivot (s.elimination τ) (q.row + 1) (q.col + 1)
      = .ok (q.element, q.tableau (s.elimination τ)) := by
    rw [Tableau.pivot_succ q.column_at q.element_at, hzero, hfinite]
    rfl
  have hentry : d.tableau.entry? (q.col + 1) (q.row + 1) = some q.element := by
    have hcolumn : d.tableau.column? (q.col + 1) = some q.column := q.column_at
    unfold Tableau.entry?
    rw [hcolumn]
    exact q.element_at
  have hrow_lt := q.row_lt
  have hcol_lt := q.col_lt
  refine ⟨by omega, by omega, ?_, ?_, ?_, ?_⟩
  · rw [hrow, hcol, hvalue]
    unfold Tableau.get
    rw [hentry]
  · rw [hvalue]
    exact hzero
  · rw [hvalue]
    exact hfinite
  · rw [hrow, hcol, hvalue]
    refine ⟨_, _, _, hpivot, q.relabelled_eq (s.elimination τ) hcount, fun e he => ?_⟩
    exact (q.wellFormed_result hwf _).nonFinite_of_validate he

end Dictionary

/-! ## §3. One step. -/

/-- What stops a step: a finding about numbers, if it looks for them, or a
counter of pivots at its last word. -/
def Fault.StopsStep (s : Settings ω) (totalSteps : Nat) (fault : Fault τ) : Prop :=
  (fault.Numerical ∧ s.checkInvariants = true)
    ∨ (fault = .counterOverflow ∧ UInt64.size ≤ totalSteps + 1)

/-- What stops an invocation that made some pivots: a finding about
numbers, or a counter of invocations or of pivots at its last word. -/
def Fault.StopsRun (loop : Loop ω γ) (pivots : Nat) (fault : Fault τ) : Prop :=
  fault.Numerical
    ∨ (fault = .counterOverflow ∧ (UInt64.size ≤ loop.invocations + 1
      ∨ UInt64.size ≤ loop.totalSteps + pivots + 1))

namespace Walk

variable {s : Settings ω} {w : Walk τ γ}

/-- **Making a pivot at a chosen place** stops only at a finding about
numbers; if it was checked and does not stop, the dictionary after it is
valid. -/
theorem make_checked (hτ : Element.TellsZero ω τ) (hs : s.validate = .ok ())
    (hd : w.dictionary.validate = .ok ()) {c : Choice τ} {q : w.dictionary.Place}
    (hq : q.Chosen (s.limits τ) c) :
    (∀ fault, (w.make s c).result = .error fault → fault.StopsStep s w.totalSteps)
      ∧ ∀ r, s.checkInvariants = true → (w.make s c).result = .ok r →
          (w.make s c).walk.dictionary.validate = .ok () := by
  have hwf := (Dictionary.validate_eq_ok_iff.1 hd).1
  have hafter := q.wellFormed_result hwf (s.elimination τ)
  obtain ⟨hzero, hfinite⟩ := hq.element_good hτ hs hd
  rw [make_eq s w hwf hq, hzero, hfinite]
  simp only [Bool.not_true, Bool.or_self, Bool.false_eq_true, if_false]
  cases hviolation : violation s (q.tableau (s.elimination τ)) with
  | some found =>
      obtain ⟨k, v⟩ := found
      refine ⟨fun fault hr => ?_, fun r _ hr => by cases hr⟩
      cases hr
      exact .inl ⟨.negativeRhs k v c.row c.col, (violation_eq_some hviolation).1⟩
  | none =>
      cases hcorruption : corruption s (q.result (s.elimination τ)) with
      | some cause =>
          refine ⟨fun fault hr => ?_, fun r _ hr => by cases hr⟩
          cases hr
          obtain ⟨hon, hinvalid⟩ := corruption_eq_some hcorruption
          obtain ⟨col, row, rfl⟩ := hafter.nonFinite_of_validate hinvalid
          exact .inl ⟨.nonFinite c.row c.col col row, hon⟩
      | none =>
          have hvalid : s.checkInvariants = true →
              (q.result (s.elimination τ)).validate = .ok () := by
            intro hon
            cases hresult : (q.result (s.elimination τ)).validate with
            | ok _ => rfl
            | error e => simp [corruption, hon, hresult] at hcorruption
          by_cases hroom : w.totalSteps + 1 < UInt64.size
          · simp only [if_pos hroom]
            exact ⟨fun fault hr => (by cases hr), fun r hon _ => hvalid hon⟩
          · simp only [if_neg hroom]
            refine ⟨fun fault hr => ?_, fun r _ hr => by cases hr⟩
            cases hr
            exact .inr ⟨rfl, Nat.le_of_not_lt hroom⟩

variable [Source γ]

/-- **A step from a valid dictionary** stops only at a finding about
numbers; if it was checked and does not stop, it leads to a valid one. -/
theorem step_checked (hτ : Element.TellsZero ω τ) (hs : s.validate = .ok ())
    (hd : w.dictionary.validate = .ok ()) :
    (∀ fault, (w.step s).result = .error fault → fault.StopsStep s w.totalSteps)
      ∧ ∀ r, s.checkInvariants = true → (w.step s).result = .ok r →
          (w.step s).walk.dictionary.validate = .ok () := by
  have hwf := (Dictionary.validate_eq_ok_iff.1 hd).1
  obtain ⟨after, ⟨-, hstep⟩ | ⟨col, -, hstep⟩ | ⟨c, q, hq, hstep⟩⟩ := step_cases s w hwf
  · rw [hstep]
    exact ⟨fun fault hr => (by cases hr), fun r _ _ => hd⟩
  · rw [hstep]
    exact ⟨fun fault hr => (by cases hr), fun r _ _ => hd⟩
  · rw [hstep]
    exact make_checked (w := { w with source := after }) hτ hs hd hq

end Walk

/-! ## §4. Passes and invocations. -/

variable [Source γ]

namespace Invocation

variable {terms : Terms ω} {i : Invocation ω τ γ}

/-- **A pass from a valid dictionary** stops only where its step stops, and
leads to a valid dictionary if it does not. -/
theorem pass_checked (hτ : Element.TellsZero ω τ) (hs : terms.settings.Checked)
    (hd : i.walk.dictionary.validate = .ok ()) :
    (∀ fault, (pass terms i).verdict = .stopped fault →
        fault.StopsStep terms.settings i.walk.totalSteps)
      ∧ ((∀ fault, (pass terms i).verdict ≠ .stopped fault) →
          (pass terms i).invocation.walk.dictionary.validate = .ok ()) := by
  have hwf := (Dictionary.validate_eq_ok_iff.1 hd).1
  obtain ⟨hfault, hvalid⟩ := Walk.step_checked (s := terms.settings) (w := i.walk) hτ hs.valid hd
  cases hlimit : spentLimit terms i with
  | some limit =>
      have hpass : pass terms i = ⟨i, [.budgetSpent limit], .done .budgetExhausted⟩ := by
        unfold pass
        rw [hlimit]
      rw [hpass]
      exact ⟨fun fault h => (by cases h), fun _ => hd⟩
  | none =>
      obtain ⟨hwalk, -, hverdict⟩ := pass_step hlimit
      rw [hwalk, hverdict]
      refine ⟨fun fault h => hfault fault (conclude_stopped (w := i.walk) hwf h), fun h => ?_⟩
      obtain ⟨r, hr, -⟩ := conclude_verdict (w := i.walk) hwf h
      exact hvalid r hs.checks hr

/-- **All passes from a valid dictionary**: they stop only at a finding
about numbers, or when the counter of pivots has no room left, and lead to
a valid dictionary if they do not. -/
theorem passes_checked (terms : Terms ω) (hτ : Element.TellsZero ω τ)
    (hs : terms.settings.Checked) (room : Nat) {i : Invocation ω τ γ}
    (hd : i.walk.dictionary.validate = .ok ())
    (hroom : UInt64.size ≤ i.walk.totalSteps + room) :
    (∀ fault, (passes terms room i).result = .error fault → fault.Numerical
        ∨ fault = .counterOverflow
          ∧ UInt64.size ≤ i.walk.totalSteps + (passes terms room i).journal.pivots.length + 1)
      ∧ ∀ status, (passes terms room i).result = .ok status →
          (passes terms room i).invocation.walk.dictionary.validate = .ok () := by
  induction room generalizing i with
  | zero =>
      refine ⟨fun fault h => ?_, fun status h => by cases h⟩
      cases h
      exact .inr ⟨rfl, by omega⟩
  | succ room ih =>
      obtain ⟨hstopped, hvalid⟩ := pass_checked hτ hs hd
      cases hverdict : (pass terms i).verdict with
      | stopped fault =>
          rw [passes_of_stopped hverdict]
          refine ⟨fun fault' h => ?_, fun status h => by cases h⟩
          cases h
          rcases hstopped fault hverdict with ⟨hnumerical, -⟩ | ⟨rfl, hfull⟩
          · exact .inl hnumerical
          · exact .inr ⟨rfl, by dsimp only; omega⟩
      | done status =>
          rw [passes_of_done hverdict]
          exact ⟨fun fault h => (by cases h), fun _ _ => hvalid (fun fault => by simp [hverdict])⟩
      | goOn =>
          rw [passes_of_goOn hverdict]
          -- a pass that goes on made one pivot, which the counter has counted
          have hgo : ∀ fault, (pass terms i).verdict ≠ .stopped fault := by simp [hverdict]
          obtain ⟨-, c, eliminated, -, hone, -, htotal, -⟩ := pass_goOn hverdict
          obtain ⟨hfault, hlast⟩ := ih (hvalid hgo) (by omega)
          refine ⟨fun fault h => ?_, hlast⟩
          rcases hfault fault h with hnumerical | ⟨rfl, hfull⟩
          · exact .inl hnumerical
          · refine .inr ⟨rfl, ?_⟩
            dsimp only
            rw [Journal.pivots_append, List.length_append, hone, List.length_singleton]
            omega

end Invocation

omit [Scalar ω] [Scalar τ] [Element ω τ] in
/-- A budget that makes sense can be drawn. -/
theorem Budget.exists_draw {budget : Budget}
    (h : (Settings.budgetFlaw budget : Option (SettingsError ω)) = none) (source : γ) :
    ∃ limit after, budget.draw source = .ok (limit, after) := by
  cases budget with
  | unlimited => exact ⟨none, source, rfl⟩
  | fixed steps => exact ⟨some steps, source, rfl⟩
  | random low high =>
      have hrange : low ≤ high := by
        by_contra hempty
        simp [Settings.budgetFlaw, not_le.1 hempty] at h
      obtain ⟨n, after, hdraw, -⟩ := Source.exists_drawBetween hrange source
      refine ⟨some n, after, ?_⟩
      unfold draw
      dsimp only
      rw [hdraw]

namespace Loop

variable {loop : Loop ω γ} {d : Dictionary τ}

/-- **A step of a loop from a valid dictionary.** -/
theorem step_checked (hτ : Element.TellsZero ω τ) (hs : loop.settings.validate = .ok ())
    (hd : d.validate = .ok ()) :
    (∀ fault, (loop.step d).2.result = .error fault →
        fault.StopsStep loop.settings loop.totalSteps)
      ∧ ∀ r, loop.settings.checkInvariants = true → (loop.step d).2.result = .ok r →
          (loop.step d).2.walk.dictionary.validate = .ok () :=
  Walk.step_checked (w := loop.walk d) hτ hs hd

/-- **An invocation on a valid dictionary** stops only at a finding about
numbers, or at a counter that has run through all words, and leads to a
valid dictionary if it does not. -/
theorem run_checked (hτ : Element.TellsZero ω τ) (hs : loop.settings.Checked)
    (hd : d.validate = .ok ()) (clock : Nat → Bool) :
    (∀ fault, (loop.run clock d).result = .error fault →
        fault.StopsRun loop (loop.run clock d).journal.pivots.length)
      ∧ ∀ o, (loop.run clock d).result = .ok o →
          (loop.run clock d).dictionary.validate = .ok () := by
  by_cases hcount : loop.invocations + 1 < UInt64.size
  · obtain ⟨limit, source, hdraw⟩ :=
      Budget.exists_draw (Settings.budgetFlaw_of_validate hs.valid) loop.source
    obtain ⟨hfault, hvalid⟩ := Invocation.passes_checked ⟨loop.settings, limit, clock⟩
      hτ hs (UInt64.size - loop.totalSteps)
      (i := ⟨⟨d, source, loop.totalSteps⟩, 0, loop.shared⟩) hd (by dsimp only; omega)
    obtain ⟨ended, rfl, hpivots, hdictionary, -, hresult, herror⟩ :=
      run_eq_passes clock (d := d) hcount hdraw
    rw [hpivots, hdictionary]
    constructor
    · intro fault hr
      rcases hfault fault ((herror fault).1 hr) with hnumerical | ⟨hoverflow, hfull⟩
      · exact .inl hnumerical
      · exact .inr ⟨hoverflow, .inr hfull⟩
    · intro o hr
      obtain ⟨status, hstatus, -⟩ := (hresult o).1 hr
      exact hvalid status hstatus
  · rw [run_of_overflow clock hcount]
    refine ⟨fun fault hr => ?_, fun o hr => by cases hr⟩
    cases hr
    exact .inr ⟨rfl, .inl (Nat.le_of_not_lt hcount)⟩

end Loop

/-! ## §5. Everything that is reached without a fault. -/

/-- **Steps, passes and invocations one after another, none of which
stops**, under settings of which `P` is known. -/
inductive Continues (P : Settings ω → Prop) (d₀ : Dictionary τ) : Dictionary τ → Prop where
  | start : Continues P d₀ d₀
  | step {γ : Type} [Source γ] {d : Dictionary τ} (h : Continues P d₀ d) (loop : Loop ω γ)
      (hs : P loop.settings) {r : StepResult τ} (hr : (loop.step d).2.result = .ok r) :
      Continues P d₀ (loop.step d).2.walk.dictionary
  | pass {γ : Type} [Source γ] {i : Invocation ω τ γ} (h : Continues P d₀ i.walk.dictionary)
      (terms : Terms ω) (hs : P terms.settings)
      (hr : ∀ fault, (i.pass terms).verdict ≠ .stopped fault) :
      Continues P d₀ (i.pass terms).invocation.walk.dictionary
  | run {γ : Type} [Source γ] {d : Dictionary τ} (h : Continues P d₀ d) (loop : Loop ω γ)
      (hs : P loop.settings) (clock : Nat → Bool) {o : Outcome ω}
      (hr : (loop.run clock d).result = .ok o) : Continues P d₀ (loop.run clock d).dictionary

/-- **Where the checks pass, the dictionary stays valid.** -/
theorem Continues.validate (hτ : Element.TellsZero ω τ) {d₀ d : Dictionary τ}
    (h : Continues (ω := ω) Settings.Checked d₀ d) (hd : d₀.validate = .ok ()) :
    d.validate = .ok () := by
  induction h with
  | start => exact hd
  | step _ loop hs hr ih => exact (loop.step_checked hτ hs.valid ih).2 _ hs.checks hr
  | pass _ terms hs hr ih => exact (Invocation.pass_checked hτ hs ih).2 hr
  | run _ loop hs clock hr ih => exact (loop.run_checked hτ hs ih clock).2 _ hr

/-- **ONLY NUMBERS CAN STOP A STEP.**  From a dictionary that was accepted,
let calls without a fault, all of them checked, lead to a dictionary `d`.
Then every row and every column of `d` has its label, and for every loop
with settings that make sense:

  * a pivot that the scan finds can be made, and a column that it finds
    unbounded has a label;
  * a step stops only where a right-hand side is below the tolerance or an
    entry is not finite, or when the counter of pivots has reached the last
    word;
  * the same holds of a checked invocation, which counts itself as well. -/
theorem Continues.only_numbers_fail (hτ : Element.TellsZero ω τ) {tableau : Tableau τ}
    {left right : List Int} {artificials : Nat} {d₀ d : Dictionary τ}
    (hd₀ : Dictionary.ofParts tableau left right artificials = .ok d₀)
    (h : Continues (ω := ω) Settings.Checked d₀ d) :
    (∀ row, 1 ≤ row → row ≤ d.tableau.height → ∃ id, d.leftLabel row = .ok id)
      ∧ (∀ col, 1 ≤ col → col ≤ d.tableau.width → ∃ id, d.rightLabel col = .ok id)
      ∧ ∀ {γ : Type} [Source γ] (loop : Loop ω γ), loop.settings.validate = .ok () →
          (∀ source c after,
              Selection.ofDictionary (loop.settings.limits τ) d (source : γ) = (.found c, after) →
              c.Admitted loop.settings d)
            ∧ (∀ source col after, Selection.ofDictionary (loop.settings.limits τ) d (source : γ)
                  = (.unbounded col, after) → ∃ id, d.rightLabel col = .ok id)
            ∧ (∀ fault, (loop.step d).2.result = .error fault →
                fault.StopsStep loop.settings loop.totalSteps)
            ∧ (loop.settings.checkInvariants = true → ∀ clock fault,
                (loop.run clock d).result = .error fault →
                  fault.StopsRun loop (loop.run clock d).journal.pivots.length) := by
  have hvalid : d.validate = .ok () := by
    refine h.validate hτ ?_
    unfold Dictionary.ofParts at hd₀
    dsimp only at hd₀
    split at hd₀
    next hok =>
      cases hd₀
      exact hok
    next => cases hd₀
  have hwf := (Dictionary.validate_eq_ok_iff.1 hvalid).1
  obtain ⟨hleft, hright⟩ := hwf.exists_label
  refine ⟨hleft, hright, fun {γ} _ loop hs => ⟨?_, ?_, ?_, ?_⟩⟩
  · intro source c after hsel
    have hexp := Selection.ofDictionary_explained (loop.settings.limits τ) d source
    rw [hsel] at hexp
    obtain ⟨q, hq⟩ := hwf.exists_place (hexp.resolve_left (by simp))
    exact hq.admitted hτ hs hvalid
  · intro source col after hsel
    have hexp := Selection.ofDictionary_explained (loop.settings.limits τ) d source
    rw [hsel] at hexp
    exact hexp.exists_rightLabel hwf
  · exact (loop.step_checked hτ hs hvalid).1
  · intro hon clock
    exact (loop.run_checked hτ ⟨hs, hon⟩ hvalid clock).1

/-- A row `x₂ = 1 - 2⁻⁷⁰⁰ x₁ + 2⁷⁰⁰ x₃`, and one with an artificial variable
and a column of its own. -/
def Dictionary.faint : Dictionary Float where
  tableau := ⟨⟨0, [1, 2]⟩, [⟨1, [0, -1]⟩, ⟨1, [Float.ofBits 0x9430000000000000, 0]⟩,
    ⟨0, [Float.ofBits 0x6bb0000000000000, 0]⟩], by decide⟩
  left := [2, -1]
  right := [4, 1, 3]
  artificials := 1

set_option maxRecDepth 4096 in
/-- The first step eliminates the artificial variable.  The second one
divides 2⁷⁰⁰ by 2⁻⁷⁰⁰ and stops at an entry that is not finite: the finding
is about numbers.  In exact arithmetic there is no such entry, but still a
right-hand side can fall below the tolerance. -/
theorem Continues.only_numbers_fail_faint :
    (∃ d : Dictionary Float, Continues (ω := Float) Settings.Checked Dictionary.faint d
      ∧ d.artificials = 0
      ∧ ∃ fault, (Loop.double.step d).2.result = .error fault
        ∧ fault.StopsStep Loop.double.settings 0)
      ∧ ∃ fault, (Loop.exact.step Dictionary.slightlyNegative).2.result = .error fault
        ∧ fault.StopsStep Loop.exact.settings 0 := by
  constructor
  · have hchecked : Loop.double.settings.Checked := ⟨by decide +kernel, rfl⟩
    have hfirst : (Loop.double.step Dictionary.faint).2.result
        = .ok (.pivoted ⟨2, 1, -1, 2, 2, false, true⟩ (some (-1))) := by rfl
    have hsecond : (Loop.double.step
        (Loop.double.step Dictionary.faint).2.walk.dictionary).2.result
        = .error (.corrupted 1 1 (.nonFinite 2 0)) := by rfl
    have hparts : Dictionary.ofParts Dictionary.faint.tableau [2, -1] [4, 1, 3] 1
        = .ok Dictionary.faint := by rfl
    have hcontinues := Continues.step .start Loop.double hchecked hfirst
    obtain ⟨-, -, hloop⟩ :=
      Continues.only_numbers_fail Element.tellsZero_float hparts hcontinues
    obtain ⟨-, -, hstep, -⟩ := hloop Loop.double hchecked.valid
    exact ⟨_, hcontinues, by rfl, _, hsecond, hstep _ hsecond⟩
  · have hstopped : (Loop.exact.step Dictionary.slightlyNegative).2.result
        = .error (.negativeRhs 1 (-(1 / 2 ^ 40)) 1 1) := by cbv
    have hparts : Dictionary.ofParts Dictionary.slightlyNegative.tableau [2, 3] [1] 0
        = .ok Dictionary.slightlyNegative := by rfl
    obtain ⟨-, -, hloop⟩ :=
      Continues.only_numbers_fail (ω := Rat) Element.tellsZero_rat hparts .start
    obtain ⟨-, -, hstep, -⟩ := hloop Loop.exact (by rfl)
    exact ⟨_, hstopped, hstep _ hstopped⟩

end DenseSimplex
