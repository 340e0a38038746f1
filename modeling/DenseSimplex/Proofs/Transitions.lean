/-
  DenseSimplex.Proofs.Transitions
  ───────────────────────────────
  **WHAT A STEP CAN DO, AND WHAT A RUN IS MADE OF.**

  A step that ends without a fault does one of three things
  (`Dictionary.Moves`): it finds that no column improves, or that one is
  unbounded, and changes nothing; or it pivots at a place that the scan
  chose.  Everything else that happens in a step, and all that happens
  between the steps of an invocation, leaves the dictionary alone:

      steps, invocations        History P d₀ ids d
          ↓  History.reaches
      moves one after another   Reaches P d₀ ids d

  Here `ids` are the artificial variables that were eliminated on the way
  and `P` is what is known of the settings; generators, clocks, budgets and
  the settings themselves may change from call to call.  What every move
  keeps is thereby kept by every history.

  The status of an invocation says what was found at the dictionary where
  it ended (`Status.HoldsAt`).
-/
import DenseSimplex.Proofs.Candidates
import DenseSimplex.Run

namespace DenseSimplex

/-! ## §1. Eliminated variables. -/

section

variable {ω τ : Type}

/-- The artificial variable that an event says was eliminated. -/
def Event.eliminated? : Event ω τ → Option Int
  | .eliminated id _ _ => some id
  | _ => none

/-- The artificial variables that a journal says were eliminated, in
order. -/
def Journal.eliminations (journal : Journal ω τ) : List Int :=
  journal.filterMap Event.eliminated?

/-- The artificial variable that a step eliminated, if any. -/
def StepResult.eliminations : StepResult τ → List Int
  | .pivoted _ eliminated => eliminated.toList
  | .optimal | .unbounded _ => []

theorem Journal.eliminations_append (j j' : Journal ω τ) :
    Journal.eliminations (j ++ j') = Journal.eliminations j ++ Journal.eliminations j' :=
  List.filterMap_append

theorem Journal.eliminations_cons (event : Event ω τ) (j : Journal ω τ) :
    Journal.eliminations (event :: j) = event.eliminated?.toList ++ Journal.eliminations j := by
  unfold eliminations
  rw [List.filterMap_cons]
  cases event.eliminated? <;> rfl

theorem Dictionary.eliminations_eliminationEvents (d : Dictionary τ) (col : Nat)
    (eliminated : Option Int) :
    Journal.eliminations (d.eliminationEvents col eliminated : Journal ω τ)
      = eliminated.toList := by
  cases eliminated <;> rfl

end

/-! ## §2. One step. -/

namespace Dictionary

variable {ω τ : Type} [Scalar τ] [Element ω τ]

/-- A place was chosen by the scan: its column improves, and the ratio test
of that column says that its row leaves. -/
structure Place.Chosen {d : Dictionary τ} (q : d.Place) (limits : Limits τ) (c : Choice τ) :
    Prop where
  improves : ¬ q.column.objective ≤ limits.epsObjective
  leaves : ∃ b, leavingRow limits q.column.entries d.tableau.rhs.entries d.left = some b
    ∧ b.row = q.row + 1 ∧ b.entry = q.element ∧ b.label = q.leaving
    ∧ c = Choice.ofLeaving limits (q.col + 1) q.column.objective b

/-- **What a step without a fault does to a dictionary**, by its result. -/
inductive Moves (s : Settings ω) (d : Dictionary τ) : StepResult τ → Dictionary τ → Prop where
  | optimal (h : NoneImproves (s.limits τ) d.tableau.columns) : Moves s d .optimal d
  | unbounded {col : Nat}
      (h : IsUnbounded (s.limits τ) d.tableau.rhs.entries d.left 1 d.tableau.columns col) :
      Moves s d (.unbounded col) d
  | pivoted {c : Choice τ} (q : d.Place) (h : q.Chosen (s.limits τ) c)
      (hgood : ¬ (q.element == 0 || !Scalar.isFinite q.element) = true) :
      Moves s d (.pivoted c q.eliminated) (q.result (s.elimination τ))

/-- In a well-formed dictionary a candidate of the scan has a place. -/
theorem WellFormed.exists_place {d : Dictionary τ} (hd : d.WellFormed) {limits : Limits τ}
    {c : Choice τ}
    (h : IsCandidate limits d.tableau.rhs.entries d.left 1 d.tableau.columns c) :
    ∃ q : d.Place, q.Chosen limits c := by
  obtain ⟨j, column, b, hj, himp, hb, rfl⟩ := h
  obtain ⟨⟨k, v, hrow, hentry, -, -, hlabel⟩, -⟩ :=
    BoundingRow.mem_ofColumn.1 (BoundingRow.leaving_mem hb)
  obtain ⟨id, hid⟩ := hd.exists_right hj
  refine ⟨⟨k, j, column, b.entry, b.label, id, hj, hentry, hlabel, hid⟩, himp, b, hb, hrow, rfl,
    rfl, ?_⟩
  rw [Nat.add_comm 1 j]

/-- A chosen place has the row, the column and the element of the
choice. -/
theorem Place.Chosen.row_col {d : Dictionary τ} {q : d.Place} {limits : Limits τ} {c : Choice τ}
    (h : q.Chosen limits c) : c.row = q.row + 1 ∧ c.col = q.col + 1 ∧ c.value = q.element := by
  obtain ⟨b, -, hrow, hentry, -, rfl⟩ := h.leaves
  exact ⟨hrow, rfl, hentry⟩

theorem Place.Chosen.element_lt {d : Dictionary τ} {q : d.Place} {limits : Limits τ}
    {c : Choice τ} (h : q.Chosen limits c) : q.element < -limits.pivotTol := by
  obtain ⟨b, hb, -, hentry, -⟩ := h.leaves
  rw [← hentry]
  exact (BoundingRow.mem_ofColumn.1 (BoundingRow.leaving_mem hb)).2

theorem Moves.wellFormed {s : Settings ω} {d d' : Dictionary τ} {r : StepResult τ}
    (h : d.Moves s r d') (hd : d.WellFormed) : d'.WellFormed := by
  cases h with
  | optimal => exact hd
  | unbounded => exact hd
  | pivoted q => exact q.wellFormed_result hd _

theorem Moves.labels_perm {s : Settings ω} {d d' : Dictionary τ} {r : StepResult τ}
    (h : d.Moves s r d') : d.labels.Perm (r.eliminations ++ d'.labels) := by
  cases h with
  | optimal => exact List.Perm.refl _
  | unbounded => exact List.Perm.refl _
  | pivoted q => exact q.labels_perm _

/-- Only artificial variables are eliminated. -/
theorem Moves.isArtificial {s : Settings ω} {d d' : Dictionary τ} {r : StepResult τ}
    (h : d.Moves s r d') : ∀ id ∈ r.eliminations, isArtificial id = true := by
  intro id hid
  cases h with
  | optimal => cases hid
  | unbounded => cases hid
  | pivoted q =>
      unfold StepResult.eliminations Place.eliminated at hid
      cases hart : DenseSimplex.isArtificial q.leaving with
      | false => simp [hart] at hid
      | true =>
          simp only [hart, if_true, Option.toList_some, List.mem_singleton] at hid
          rw [hid, hart]

end Dictionary

namespace Tableau

variable {α : Type} [Scalar α] {t : Tableau α} {prec v : α} {k : Nat}

theorem exists_of_violation (h : t.violation prec = some (k, v)) :
    ∃ i, k = i + 1 ∧ t.rhs.entries[i]? = some v ∧ isViolated prec v = true := by
  unfold violation checkFeasible at h
  obtain ⟨row, hrow, hentry⟩ := Option.bind_eq_some_iff.1 h
  obtain ⟨i, hi, rfl⟩ := Option.map_eq_some_iff.1 hrow
  obtain ⟨v', hv', heq⟩ := Option.map_eq_some_iff.1 hentry
  cases heq
  have hget : t.rhs.entries[i]? = some v := hv'
  obtain ⟨hlt, hviolated, -⟩ := List.findIdx?_eq_some_iff_getElem.1 hi
  refine ⟨i, rfl, hget, ?_⟩
  rw [List.getElem?_eq_getElem hlt] at hget
  rwa [Option.some.inj hget] at hviolated

/-- The row that the check names has a right-hand side to be shown. -/
theorem violation_eq_none_iff : t.violation prec = none ↔ t.checkFeasible prec = none := by
  unfold violation
  constructor
  · intro h
    cases hcheck : t.checkFeasible prec with
    | none => rfl
    | some k =>
        unfold checkFeasible at hcheck
        obtain ⟨i, hi, rfl⟩ := Option.map_eq_some_iff.1 hcheck
        obtain ⟨hlt, -⟩ := List.findIdx?_eq_some_iff_getElem.1 hi
        have hentry : t.entry? 0 (i + 1) = some t.rhs.entries[i] := List.getElem?_eq_getElem hlt
        unfold checkFeasible at h
        rw [hcheck, Option.bind_some, hentry] at h
        cases h
  · intro h
    rw [h]
    rfl

end Tableau

namespace Walk

variable {ω τ γ : Type} [Scalar τ] [Element ω τ]

/-- A violation is found where it is looked for. -/
theorem violation_eq_some {s : Settings ω} {t : Tableau τ} {found : Nat × τ}
    (h : violation s t = some found) :
    s.checkInvariants = true ∧ t.violation (s.limits τ).prec = some found := by
  unfold violation at h
  split at h
  next hon => exact ⟨hon, h⟩
  next => cases h

omit [Element ω τ] in
theorem corruption_eq_some {s : Settings ω} {d : Dictionary τ} {cause : InputError}
    (h : corruption s d = some cause) :
    s.checkInvariants = true ∧ d.validate = .error cause := by
  unfold corruption at h
  split at h
  next hon =>
    split at h
    next => cases h
    next e he =>
      cases h
      exact ⟨hon, he⟩
  next => cases h

/-- **Making a pivot at a chosen place**, up to the checks. -/
theorem make_eq (s : Settings ω) (w : Walk τ γ) (hd : w.dictionary.WellFormed) {c : Choice τ}
    {q : w.dictionary.Place} (hq : q.Chosen (s.limits τ) c) :
    w.make s c =
      if q.element == 0 || !Scalar.isFinite q.element then
        ⟨w, [], .error (.badPivot q.element (q.row + 1) (q.col + 1))⟩
      else
        match violation s (q.tableau (s.elimination τ)) with
        | some (k, v) =>
            ⟨{ w with dictionary := { w.dictionary with tableau := q.tableau (s.elimination τ) } },
              [.violated k v c.row c.col], .error (.negativeRhs k v c.row c.col)⟩
        | none =>
            let after := q.result (s.elimination τ)
            let journal := after.eliminationEvents c.col q.eliminated
            match corruption s after with
            | some cause =>
                ⟨{ w with dictionary := after }, journal, .error (.corrupted c.row c.col cause)⟩
            | none =>
                if w.totalSteps + 1 < UInt64.size then
                  ⟨{ w with dictionary := after, totalSteps := w.totalSteps + 1 }, journal,
                    .ok (.pivoted c q.eliminated)⟩
                else ⟨{ w with dictionary := after }, journal, .error .counterOverflow⟩ := by
  obtain ⟨hrow, hcol, -⟩ := hq.row_col
  have hcount : isArtificial q.leaving = true → w.dictionary.artificials ≠ 0 :=
    hd.artificials_ne_zero (List.mem_append_left _ (List.mem_of_getElem? q.leaving_at))
  -- the choice names a place, so the pivot can fail only on its element
  unfold make settle
  rw [hrow, hcol, Tableau.pivot_succ q.column_at q.element_at]
  by_cases hbad : (q.element == 0 || !Scalar.isFinite q.element) = true
  · rw [if_pos hbad, if_pos hbad]
  · rw [if_neg hbad, if_neg hbad]
    have hlabels := q.relabelled_eq (s.elimination τ) hcount
    unfold Dictionary.Place.tableau at hlabels
    simp only [hlabels]
    rfl

variable [Source γ]

/-- **The three ways of a step.**  The source may have been advanced; apart
from that it changes nothing, or it makes a pivot at a chosen place. -/
theorem step_cases (s : Settings ω) (w : Walk τ γ) (hd : w.dictionary.WellFormed) :
    ∃ after, (NoneImproves (s.limits τ) w.dictionary.tableau.columns
          ∧ w.step s = ⟨{ w with source := after }, [], .ok .optimal⟩)
      ∨ (∃ col, IsUnbounded (s.limits τ) w.dictionary.tableau.rhs.entries w.dictionary.left 1
            w.dictionary.tableau.columns col
          ∧ w.step s = ⟨{ w with source := after }, [], .ok (.unbounded col)⟩)
      ∨ ∃ c, ∃ q : w.dictionary.Place, q.Chosen (s.limits τ) c
          ∧ w.step s = make s { w with source := after } c := by
  have hexp := Selection.ofDictionary_explained (s.limits τ) w.dictionary w.source
  unfold step
  generalize Selection.ofDictionary (s.limits τ) w.dictionary w.source = answer at hexp ⊢
  obtain ⟨selection, after⟩ := answer
  refine ⟨after, ?_⟩
  cases selection with
  | noPivot => exact .inl ⟨hexp.2, rfl⟩
  | unbounded col => exact .inr (.inl ⟨col, hexp, rfl⟩)
  | found c =>
      obtain ⟨q, hq⟩ := hd.exists_place (hexp.resolve_left (by simp))
      exact .inr (.inr ⟨c, q, hq, rfl⟩)

/-- **A step without a fault is a move**, and its journal tells of the
variable that the move eliminated. -/
theorem moves_of_step (s : Settings ω) (w : Walk τ γ) (hd : w.dictionary.WellFormed)
    {r : StepResult τ} (h : (w.step s).result = .ok r) :
    w.dictionary.Moves s r (w.step s).walk.dictionary
      ∧ (w.step s).journal.eliminations = r.eliminations := by
  obtain ⟨after, ⟨hnone, hstep⟩ | ⟨col, hcol, hstep⟩ | ⟨c, q, hq, hstep⟩⟩ := step_cases s w hd
  · rw [hstep] at h ⊢
    cases h
    exact ⟨.optimal hnone, rfl⟩
  · rw [hstep] at h ⊢
    cases h
    exact ⟨.unbounded hcol, rfl⟩
  -- a pivot without a fault has a good element, passed both checks and was counted
  · rw [hstep, make_eq s { w with source := after } hd hq] at h ⊢
    split at h
    · cases h
    next hgood =>
      rw [if_neg hgood]
      split at h
      · cases h
      · dsimp only at h ⊢
        split at h
        · cases h
        · split at h
          next hroom =>
            rw [if_pos hroom]
            cases h
            exact ⟨.pivoted q hq hgood, Dictionary.eliminations_eliminationEvents _ _ _⟩
          · cases h

end Walk

/-! ## §3. Moves one after another. -/

namespace Dictionary

variable {ω τ : Type} [Scalar τ] [Element ω τ]

/-- A dictionary can be reached by moves under settings of which `P` is
known; the variables eliminated on the way are listed in order. -/
inductive Reaches (P : Settings ω → Prop) (d₀ : Dictionary τ) :
    List Int → Dictionary τ → Prop where
  | start : Reaches P d₀ [] d₀
  | move {ids : List Int} {d d' : Dictionary τ} {s : Settings ω} {r : StepResult τ}
      (h : Reaches P d₀ ids d) (hs : P s) (hm : d.Moves s r d') :
      Reaches P d₀ (ids ++ r.eliminations) d'

variable {P : Settings ω → Prop} {d₀ d d' : Dictionary τ} {ids ids' : List Int}

theorem Reaches.single {s : Settings ω} {r : StepResult τ} (hs : P s) (hm : d.Moves s r d') :
    Reaches P d r.eliminations d' := .move .start hs hm

theorem Reaches.trans (h : Reaches P d₀ ids d) (h' : Reaches P d ids' d') :
    Reaches P d₀ (ids ++ ids') d' := by
  induction h' with
  | start =>
      rw [List.append_nil]
      exact h
  | move _ hs hm ih =>
      rw [← List.append_assoc]
      exact .move ih hs hm

theorem Reaches.mono {Q : Settings ω → Prop} (hPQ : ∀ s, P s → Q s) (h : Reaches P d₀ ids d) :
    Reaches Q d₀ ids d := by
  induction h with
  | start => exact .start
  | move _ hs hm ih => exact .move ih (hPQ _ hs) hm

theorem Reaches.wellFormed (h : Reaches P d₀ ids d) (hd : d₀.WellFormed) : d.WellFormed := by
  induction h with
  | start => exact hd
  | move _ _ hm ih => exact hm.wellFormed ih

/-- **Over any moves the labels are kept**, except for those that were
eliminated. -/
theorem Reaches.labels_perm (h : Reaches P d₀ ids d) : d₀.labels.Perm (ids ++ d.labels) := by
  induction h with
  | start => exact List.Perm.refl _
  | move _ _ hm ih =>
      rw [List.append_assoc]
      exact ih.trans (hm.labels_perm.append_left _)

theorem Reaches.isArtificial (h : Reaches P d₀ ids d) : ∀ id ∈ ids, isArtificial id = true := by
  induction h with
  | start => simp
  | move _ _ hm ih =>
      intro id hid
      rcases List.mem_append.1 hid with hid | hid
      · exact ih id hid
      · exact hm.isArtificial id hid

/-- What was eliminated is no label any more. -/
theorem Reaches.not_mem_labels (h : Reaches P d₀ ids d) (hd : d₀.WellFormed) :
    ∀ id ∈ ids, id ∉ d.labels := by
  have hnodup : (ids ++ d.labels).Nodup := h.labels_perm.nodup_iff.1 hd.nodup
  intro id hid hmem
  exact (List.nodup_append.1 hnodup).2.2 id hid id hmem rfl

end Dictionary

/-! ## §4. Invocations. -/

/-- What a status says about the dictionary where an invocation ended. -/
def Status.HoldsAt {ω τ : Type} [Scalar τ] [Element ω τ] (s : Settings ω) (d : Dictionary τ) :
    Status → Prop
  | .optimal => NoneImproves (s.limits τ) d.tableau.columns
  | .unbounded =>
      ∃ col, IsUnbounded (s.limits τ) d.tableau.rhs.entries d.left 1 d.tableau.columns col
  | .feasible | .budgetExhausted => d.artificials = 0

theorem Dictionary.Moves.optimal_holdsAt {ω τ : Type} [Scalar τ] [Element ω τ] {s : Settings ω}
    {d d' : Dictionary τ} (h : d.Moves s .optimal d') : Status.optimal.HoldsAt s d' := by
  cases h with
  | optimal h => exact h

theorem Dictionary.Moves.unbounded_isUnbounded {ω τ : Type} [Scalar τ] [Element ω τ]
    {s : Settings ω} {d d' : Dictionary τ} {col : Nat} (h : d.Moves s (.unbounded col) d') :
    IsUnbounded (s.limits τ) d'.tableau.rhs.entries d'.left 1 d'.tableau.columns col := by
  cases h with
  | unbounded h => exact h

theorem IsUnbounded.exists_rightLabel {τ : Type} [Scalar τ] {limits : Limits τ}
    {d : Dictionary τ} {col : Nat}
    (h : IsUnbounded limits d.tableau.rhs.entries d.left 1 d.tableau.columns col)
    (hd : d.WellFormed) : ∃ id, d.rightLabel col = .ok id := by
  obtain ⟨j, column, hj, rfl, -⟩ := h
  obtain ⟨id, hid⟩ := hd.exists_right hj
  refine ⟨id, ?_⟩
  rw [Nat.add_comm]
  exact Dictionary.labelAt_succ hid

namespace Invocation

variable {ω τ γ : Type}

theorem artificials_of_spentLimit {terms : Terms ω} {i : Invocation ω τ γ} {limit : Nat}
    (h : spentLimit terms i = some limit) : i.walk.dictionary.artificials = 0 := by
  unfold spentLimit Dictionary.phase at h
  by_contra hne
  simp [hne] at h

theorem eliminations_pivotEvents (d : Dictionary τ) (step : Nat) (choice : Choice τ)
    (eliminated : Option Int) :
    Journal.eliminations (pivotEvents d step choice eliminated : Journal ω τ) = [] := by
  unfold pivotEvents
  split <;> rfl

theorem eliminations_report [Element ω τ] (terms : Terms ω) (i : Invocation ω τ γ) :
    (report terms i).eliminations = [] := by
  unfold report
  split <;> rfl

/-- A pass that concludes a step has the dictionary and the eliminations of
the step, and stops where the step stops. -/
theorem conclude_spec (terms : Terms ω) (i : Invocation ω τ γ) (stepped : Stepped ω τ γ) :
    (conclude terms i stepped).invocation.walk = stepped.walk
      ∧ (conclude terms i stepped).journal.eliminations = stepped.journal.eliminations := by
  unfold conclude
  split
  · exact ⟨rfl, rfl⟩
  · exact ⟨rfl, rfl⟩
  · dsimp only
    split
    · exact ⟨rfl, rfl⟩
    · refine ⟨rfl, ?_⟩
      simp only [Journal.eliminations_append]
      exact List.append_nil _
  · dsimp only
    split
    · refine ⟨rfl, ?_⟩
      simp only [Journal.eliminations_append, eliminations_pivotEvents, List.append_nil]
    · refine ⟨rfl, ?_⟩
      simp only [Journal.eliminations_append, eliminations_pivotEvents, List.append_nil]

variable [Scalar τ] [Element ω τ] [Source γ]

/-- Unless a limit is spent, a pass concludes the step from where the
invocation stands. -/
theorem pass_step {terms : Terms ω} {i : Invocation ω τ γ} (h : spentLimit terms i = none) :
    (pass terms i).invocation.walk = (i.walk.step terms.settings).walk
      ∧ (pass terms i).journal.eliminations = (i.walk.step terms.settings).journal.eliminations
      ∧ (pass terms i).verdict =
          (conclude terms i.publish (i.walk.step terms.settings)).verdict := by
  obtain ⟨hwalk, helim⟩ := conclude_spec terms i.publish (i.walk.step terms.settings)
  unfold pass
  rw [h]
  refine ⟨hwalk, ?_, rfl⟩
  simp only [Journal.eliminations_append, eliminations_report, List.nil_append]
  exact helim

/-- A pass stops only where its step stops: the column that a step found
unbounded has a label. -/
theorem conclude_stopped {terms : Terms ω} {i : Invocation ω τ γ} {w : Walk τ γ}
    (hd : w.dictionary.WellFormed) {fault : Fault τ}
    (h : (conclude terms i (w.step terms.settings)).verdict = .stopped fault) :
    (w.step terms.settings).result = .error fault := by
  cases hr : (w.step terms.settings).result with
  | error cause =>
      unfold conclude at h
      rw [hr] at h
      cases h
      rfl
  | ok r =>
      have hmove := (Walk.moves_of_step terms.settings w hd hr).1
      unfold conclude at h
      rw [hr] at h
      cases r with
      | optimal => cases h
      | unbounded col =>
          obtain ⟨id, hid⟩ := (hmove.unbounded_isUnbounded).exists_rightLabel
            (hmove.wellFormed hd)
          dsimp only at h
          rw [hid] at h
          cases h
      | pivoted choice eliminated =>
          dsimp only at h
          split at h
          · cases h
          · cases h

/-- A pass that is not stopped concludes a step without a fault, and a
status that it ends with says what the step found. -/
theorem conclude_verdict {terms : Terms ω} {i : Invocation ω τ γ} {w : Walk τ γ}
    (hd : w.dictionary.WellFormed)
    (h : ∀ fault, (conclude terms i (w.step terms.settings)).verdict ≠ .stopped fault) :
    ∃ r, (w.step terms.settings).result = .ok r
      ∧ ∀ status, (conclude terms i (w.step terms.settings)).verdict = .done status →
          status.HoldsAt terms.settings (w.step terms.settings).walk.dictionary := by
  cases hr : (w.step terms.settings).result with
  | error fault =>
      refine absurd ?_ (h fault)
      unfold conclude
      rw [hr]
  | ok r =>
      refine ⟨r, rfl, fun status hstatus => ?_⟩
      have hmove := (Walk.moves_of_step terms.settings w hd hr).1
      unfold conclude at hstatus
      rw [hr] at hstatus
      cases r with
      | optimal =>
          cases hstatus
          exact hmove.optimal_holdsAt
      | unbounded col =>
          dsimp only at hstatus
          split at hstatus
          · cases hstatus
          · cases hstatus
            exact ⟨col, hmove.unbounded_isUnbounded⟩
      | pivoted choice eliminated =>
          dsimp only at hstatus
          split at hstatus
          next hfeasible =>
            cases hstatus
            simp only [becameFeasible, Bool.and_eq_true, beq_iff_eq] at hfeasible
            exact hfeasible.1.2
          · cases hstatus

/-- **A pass that is not stopped makes at most one move**, and a status
that it ends with holds where it ends. -/
theorem pass_reaches {terms : Terms ω} {i : Invocation ω τ γ} (hd : i.walk.dictionary.WellFormed)
    (h : ∀ fault, (pass terms i).verdict ≠ .stopped fault) :
    Dictionary.Reaches (· = terms.settings) i.walk.dictionary (pass terms i).journal.eliminations
        (pass terms i).invocation.walk.dictionary
      ∧ ∀ status, (pass terms i).verdict = .done status →
          status.HoldsAt terms.settings (pass terms i).invocation.walk.dictionary := by
  cases hlimit : spentLimit terms i with
  | some limit =>
      have hpass : pass terms i = ⟨i, [.budgetSpent limit], .done .budgetExhausted⟩ := by
        unfold pass
        rw [hlimit]
      rw [hpass]
      refine ⟨.start, fun status hstatus => ?_⟩
      cases hstatus
      exact artificials_of_spentLimit hlimit
  | none =>
      obtain ⟨hwalk, helim, hverdict⟩ := pass_step hlimit
      rw [hverdict] at h ⊢
      obtain ⟨r, hr, hstatus⟩ := conclude_verdict hd h
      obtain ⟨hmove, hids⟩ := Walk.moves_of_step terms.settings i.walk hd hr
      rw [hwalk, helim, hids]
      exact ⟨.single rfl hmove, hstatus⟩

/-- **All passes of an invocation are moves one after another**, and the
status that ends them holds where they end. -/
theorem passes_reaches {terms : Terms ω} (room : Nat) {i : Invocation ω τ γ}
    (hd : i.walk.dictionary.WellFormed) {status : Status}
    (h : (passes terms room i).result = .ok status) :
    Dictionary.Reaches (· = terms.settings) i.walk.dictionary
        (passes terms room i).journal.eliminations
        (passes terms room i).invocation.walk.dictionary
      ∧ status.HoldsAt terms.settings (passes terms room i).invocation.walk.dictionary := by
  -- the invariant is that the dictionary is well-formed, which moves keep
  induction room generalizing i with
  | zero => cases h
  | succ room ih =>
      unfold passes at h ⊢
      have hpass : (∀ fault, (pass terms i).verdict ≠ .stopped fault) → _ := pass_reaches hd
      generalize pass terms i = passed at h hpass ⊢
      obtain ⟨next, journal, verdict⟩ := passed
      cases verdict with
      | stopped fault => cases h
      | done status' =>
          cases h
          obtain ⟨hreach, hstatus⟩ := hpass (fun _ => by simp)
          exact ⟨hreach, hstatus status rfl⟩
      | goOn =>
          obtain ⟨hreach, -⟩ := hpass (fun _ => by simp)
          obtain ⟨hrest, hstatus⟩ := ih (hreach.wellFormed hd) h
          refine ⟨?_, hstatus⟩
          simp only [Journal.eliminations_append]
          exact hreach.trans hrest

end Invocation

namespace Loop

variable {ω τ γ : Type}

theorem eliminations_closingEvents (invocation : Nat) (o : Outcome ω) :
    Journal.eliminations (closingEvents invocation o : Journal ω τ) = [] := by
  unfold closingEvents
  split <;> rfl

variable [Scalar τ] [Element ω τ] [Source γ]

/-- **An invocation with an outcome is moves one after another**, and its
outcome is about the dictionary where it ended. -/
theorem run_reaches (loop : Loop ω γ) (clock : Nat → Bool) {d : Dictionary τ}
    (hd : d.WellFormed) {o : Outcome ω} (h : (loop.run clock d).result = .ok o) :
    Dictionary.Reaches (· = loop.settings) d (loop.run clock d).journal.eliminations
        (loop.run clock d).dictionary
      ∧ o.status.HoldsAt loop.settings (loop.run clock d).dictionary
      ∧ o.artificials = (loop.run clock d).dictionary.artificials
      ∧ o.objective = Element.widen (loop.run clock d).dictionary.objective := by
  unfold run close at h ⊢
  split at h
  · cases h
  next hroom =>
    rw [if_neg hroom]
    dsimp only at h ⊢
    split at h
    · cases h
    next limit source hdraw =>
      split at h
      · cases h
      next status hstatus =>
        cases h
        obtain ⟨hreach, hholds⟩ := Invocation.passes_reaches _ hd hstatus
        refine ⟨?_, hholds, rfl, rfl⟩
        rw [Journal.eliminations_append, eliminations_closingEvents, List.append_nil,
          Journal.eliminations_cons]
        exact hreach

end Loop

/-! ## §5. Histories. -/

/-- **Steps and invocations one after another**, by loops of any kind with
settings of which `P` is known, each with a result.  The variables
eliminated on the way are listed in order: a step tells of them in its
result, an invocation in its journal. -/
inductive History {ω τ : Type} [Scalar τ] [Element ω τ] (P : Settings ω → Prop)
    (d₀ : Dictionary τ) : List Int → Dictionary τ → Prop where
  | start : History P d₀ [] d₀
  | step {γ : Type} [Source γ] {ids : List Int} {d : Dictionary τ} (h : History P d₀ ids d)
      (loop : Loop ω γ) (hs : P loop.settings) {r : StepResult τ}
      (hr : (loop.step d).2.result = .ok r) :
      History P d₀ (ids ++ r.eliminations) (loop.step d).2.walk.dictionary
  | run {γ : Type} [Source γ] {ids : List Int} {d : Dictionary τ} (h : History P d₀ ids d)
      (loop : Loop ω γ) (hs : P loop.settings) (clock : Nat → Bool) {o : Outcome ω}
      (hr : (loop.run clock d).result = .ok o) :
      History P d₀ (ids ++ (loop.run clock d).journal.eliminations) (loop.run clock d).dictionary

theorem History.mono {ω τ : Type} [Scalar τ] [Element ω τ] {P Q : Settings ω → Prop}
    (hPQ : ∀ s, P s → Q s) {d₀ d : Dictionary τ} {ids : List Int} (h : History P d₀ ids d) :
    History Q d₀ ids d := by
  induction h with
  | start => exact .start
  | step _ loop hs hr ih => exact .step ih loop (hPQ _ hs) hr
  | run _ loop hs clock hr ih => exact .run ih loop (hPQ _ hs) clock hr

/-- **A history is made of moves.** -/
theorem History.reaches {ω τ : Type} [Scalar τ] [Element ω τ] {P : Settings ω → Prop}
    {d₀ d : Dictionary τ} {ids : List Int} (h : History P d₀ ids d) (hd : d₀.WellFormed) :
    Dictionary.Reaches P d₀ ids d := by
  induction h with
  | start => exact .start
  | step _ loop hs hr ih =>
      exact .move ih hs (Walk.moves_of_step loop.settings _ (ih.wellFormed hd) hr).1
  | run _ loop hs clock hr ih =>
      have hrun := (loop.run_reaches clock (ih.wellFormed hd) hr).1
      refine ih.trans (hrun.mono ?_)
      rintro s rfl
      exact hs

end DenseSimplex
