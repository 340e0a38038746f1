/-
  DenseSimplex.Proofs.Reports
  ───────────────────────────
  **WHAT THE OBSERVER SEES IS WHAT THE INVOCATION DID.**

  An invocation with an outcome visits one dictionary after another
  (`Dictionary.Trajectory`), and its journal is written pass by pass
  (`Journal.Chronicle`): in pass `k` the snapshot of the `k`-th dictionary,
  if the clock says that a report is due, and then what the step tells of,
  which includes the pivot but no snapshot.

      pass          report ++ events
        ↓  Invocation.passes_chronicle
      passes        Chronicle, from any step on
        ↓  Loop.run_reported
      invocations   Outcome.Reported

  An invocation that ends as optimal or unbounded takes one step more than
  it makes pivots, and this step is reported as well; one that stops at a
  feasible basis or at its limit does not (`Outcome.passes`).  The shared
  cell is written once more behind the last pass, so that no exit leaves
  it behind (`Loop.run_reported`).
-/
import DenseSimplex.Proofs.Invocations
import DenseSimplex.Proofs.PhaseOne

namespace DenseSimplex

/-! ## §1. Snapshots in a journal. -/

section

variable {ω τ γ : Type}

theorem Journal.snapshots_append (j j' : Journal ω τ) :
    Journal.snapshots (j ++ j') = Journal.snapshots j ++ Journal.snapshots j' :=
  List.filterMap_append

/-- A journal without observations has no snapshots. -/
theorem Journal.snapshots_eq_nil {j : Journal ω τ} (h : ∀ e ∈ j, e.snapshot? = none) :
    j.snapshots = [] :=
  List.filterMap_eq_nil_iff.2 h

theorem Invocation.snapshot?_of_mem_pivotEvents {d : Dictionary τ} {step : Nat}
    {choice : Choice τ} {eliminated : Option Int} {e : Event ω τ}
    (h : e ∈ (pivotEvents d step choice eliminated : Journal ω τ)) : e.snapshot? = none := by
  unfold pivotEvents at h
  rcases List.mem_cons.1 h with rfl | h
  · rfl
  · split at h
    · rw [List.mem_singleton.1 h]
      rfl
    · cases h

/-- Concluding a step observes nothing. -/
theorem Invocation.snapshot?_of_mem_conclude (terms : Terms ω) (i : Invocation ω τ γ)
    {stepped : Stepped ω τ γ} (hstep : ∀ e ∈ stepped.journal, e.snapshot? = none) :
    ∀ e ∈ (conclude terms i stepped).journal, e.snapshot? = none := by
  unfold conclude
  split
  · exact hstep
  · exact hstep
  · dsimp only
    split
    · exact hstep
    · intro e he
      rcases List.mem_append.1 he with he | he
      · exact hstep e he
      · rw [List.mem_singleton.1 he]
        rfl
  · have hpivot : ∀ d step choice eliminated,
        ∀ e ∈ stepped.journal ++ (pivotEvents d step choice eliminated : Journal ω τ),
          e.snapshot? = none := by
      intro d step choice eliminated e he
      rcases List.mem_append.1 he with he | he
      · exact hstep e he
      · exact snapshot?_of_mem_pivotEvents he
    dsimp only
    split
    · exact hpivot _ _ _ _
    · exact hpivot _ _ _ _

theorem Invocation.shared_conclude (terms : Terms ω) (i : Invocation ω τ γ)
    (stepped : Stepped ω τ γ) : (conclude terms i stepped).invocation.shared = i.shared := by
  unfold conclude
  split
  · rfl
  · rfl
  · dsimp only
    split <;> rfl
  · dsimp only
    split <;> rfl

theorem Loop.snapshots_closingEvents (invocation : Nat) (o : Outcome ω) :
    Journal.snapshots (closingEvents invocation o : Journal ω τ) = [] := by
  unfold closingEvents
  split <;> rfl

variable [Element ω τ]

/-- A sequence with one more entry before it. -/
def prepend {α : Type} (a : α) (f : Nat → α) : Nat → α
  | 0 => a
  | k + 1 => f k

namespace Journal

/-- What the observer is told before step `k`, from a dictionary. -/
def observation (clock : Nat → Bool) (k : Nat) (d : Dictionary τ) : Journal ω τ :=
  if clock k then [.observed (Snapshot.ofDictionary k d)] else []

/-- The journal of some passes, from step `first` on: an observation of the
dictionary that a pass begins at, if it is due, and then the events of the
pass. -/
def ofPasses (clock : Nat → Bool) (first passes : Nat) (visited : Nat → Dictionary τ)
    (events : Nat → Journal ω τ) : Journal ω τ :=
  (List.range passes).flatMap fun k => observation clock (first + k) (visited k) ++ events k

variable {clock : Nat → Bool} {first passes : Nat} {c : Choice τ} {cs : List (Choice τ)}
  {j ev : Journal ω τ} {visited : Nat → Dictionary τ}
  {events : Nat → Journal ω τ}

theorem ofPasses_succ : ofPasses clock first (passes + 1) visited events
    = observation clock first (visited 0) ++ events 0
      ++ ofPasses clock (first + 1) passes (fun k => visited (k + 1))
        (fun k => events (k + 1)) := by
  have hshift : ∀ k, first + 1 + k = first + (k + 1) := fun k => by omega
  unfold ofPasses
  rw [List.range_succ_eq_map, List.flatMap_cons, List.flatMap_map]
  simp only [hshift, Nat.add_zero, Nat.succ_eq_add_one]

/-- **The snapshots of some passes** are those of the dictionaries where
the clock said so. -/
theorem snapshots_ofPasses (h : ∀ k < passes, (events k).snapshots = []) :
    (ofPasses clock first passes visited events).snapshots
      = ((List.range passes).filter fun k => clock (first + k)).map
          fun k => Snapshot.ofDictionary (first + k) (visited k) := by
  induction passes with
  | zero => rfl
  | succ n ih =>
      have hlast : Journal.snapshots (observation clock (first + n) (visited n) ++ events n)
          = if clock (first + n) then [Snapshot.ofDictionary (first + n) (visited n)] else [] := by
        rw [snapshots_append, h n (Nat.lt_succ_self n), List.append_nil]
        unfold observation
        split <;> rfl
      unfold ofPasses at ih ⊢
      rw [List.range_succ, List.flatMap_append, snapshots_append, List.flatMap_singleton, hlast,
        ih (fun k hk => h k (Nat.lt_succ_of_lt hk)), List.filter_append, List.map_append,
        List.filter_singleton]
      cases clock (first + n) <;> rfl

/-- **A journal that is written pass by pass**, from step `first` on: the
events of a pass include its pivot, if it makes one, and no observation,
and nothing is observed behind the last pass. -/
structure Chronicle (clock : Nat → Bool) (first passes : Nat) (cs : List (Choice τ))
    (visited : Nat → Dictionary τ) (journal : Journal ω τ) : Prop where
  written : ∃ events closing, journal = ofPasses clock first passes visited events ++ closing
    ∧ (∀ k < passes, (events k).snapshots = [] ∧ (events k).pivots = cs[k]?.toList)
    ∧ closing.snapshots = [] ∧ closing.pivots = []

theorem Chronicle.snapshots_eq (h : j.Chronicle clock 0 passes cs visited) :
    j.snapshots
      = ((List.range passes).filter clock).map fun k => Snapshot.ofDictionary k (visited k) := by
  obtain ⟨events, closing, rfl, hevents, hclosing, -⟩ := h.written
  rw [snapshots_append, hclosing, List.append_nil,
    snapshots_ofPasses fun k hk => (hevents k hk).1]
  simp only [Nat.zero_add]

/-- The chronicle of one last pass, which made a pivot or none. -/
theorem Chronicle.one (hsnapshots : ev.snapshots = []) (hpivots : ev.pivots = cs[0]?.toList) :
    Chronicle clock first 1 cs visited (observation clock first (visited 0) ++ ev) := by
  refine ⟨fun _ => ev, [], ?_, ?_, rfl, rfl⟩
  · rw [ofPasses_succ]
    show _ = _ ++ [] ++ []
    rw [List.append_nil, List.append_nil]
  · intro k hk
    obtain rfl : k = 0 := by omega
    exact ⟨hsnapshots, hpivots⟩

/-- A pass that made a pivot, before a chronicle. -/
theorem Chronicle.cons (hsnapshots : ev.snapshots = []) (hpivots : ev.pivots = [c])
    (rest : Chronicle clock (first + 1) passes cs (fun k => visited (k + 1)) j) :
    Chronicle clock first (passes + 1) (c :: cs) visited
      (observation clock first (visited 0) ++ ev ++ j) := by
  obtain ⟨events, closing, rfl, hevents, hclosing⟩ := rest.written
  refine ⟨prepend ev events, closing, ?_, fun k hk => ?_, hclosing⟩
  · rw [ofPasses_succ]
    exact (List.append_assoc _ _ _).symm
  · cases k with
    | zero => exact ⟨hsnapshots, hpivots⟩
    | succ k => exact hevents k (by omega)

end Journal

end

/-- The number of passes that took a step: one for each pivot, and one more
that found no pivot to make. -/
def Outcome.passes {ω : Type} (o : Outcome ω) : Nat :=
  o.steps + if o.status.isResumable then 0 else 1

theorem Outcome.passes_le {ω : Type} (o : Outcome ω) : o.passes ≤ o.steps + 1 := by
  unfold passes
  split <;> omega

variable {ω τ γ : Type} [Scalar τ] [Element ω τ]

/-! ## §2. Trajectories and chronicles. -/

namespace Dictionary

variable [Source γ]

/-- **The dictionaries that an invocation visits**, and its sources of
coins: one after another by the pivots that it makes. -/
structure Trajectory (s : Settings ω) (d : Dictionary τ) (source : γ) (cs : List (Choice τ))
    (visited : Nat → Dictionary τ) (sources : Nat → γ) : Prop where
  start : visited 0 = d
  source : sources 0 = source
  pivot : ∀ k c, cs[k]? = some c → ∃ eliminated, (visited k).Steps s (sources k)
    (.pivoted c eliminated) (visited (k + 1)) (sources (k + 1))

variable {s : Settings ω} {d d₁ : Dictionary τ} {source source₁ : γ} {c : Choice τ}
  {cs : List (Choice τ)} {visited : Nat → Dictionary τ} {sources : Nat → γ}

theorem Trajectory.nil : d.Trajectory s source [] (fun _ => d) (fun _ => source) :=
  ⟨rfl, rfl, fun k c h => by cases h⟩

theorem Trajectory.cons {eliminated : Option Int}
    (h : d.Steps s source (.pivoted c eliminated) d₁ source₁)
    (rest : d₁.Trajectory s source₁ cs visited sources) :
    d.Trajectory s source (c :: cs) (prepend d visited)
      (prepend source sources) := by
  refine ⟨rfl, rfl, fun k c' hk => ?_⟩
  cases k with
  | zero =>
      obtain rfl : c = c' := Option.some.inj hk
      rw [← rest.start, ← rest.source] at h
      exact ⟨eliminated, h⟩
  | succ k => exact rest.pivot k c' hk

/-- Along a trajectory the number of artificial variables never grows. -/
theorem Trajectory.artificials_le (h : d.Trajectory s source cs visited sources) {j k : Nat}
    (hjk : j ≤ k) (hk : k ≤ cs.length) : (visited k).artificials ≤ (visited j).artificials := by
  induction hjk with
  | refl => exact Nat.le_refl _
  | step hjk ih =>
      refine Nat.le_trans ?_ (ih (Nat.le_of_succ_le hk))
      obtain ⟨eliminated, hstep⟩ := h.pivot _ _ (List.getElem?_eq_getElem hk)
      cases hstep with
      | pivoted _ hmake =>
          exact Nat.le_of_add_right_le hmake.artificials_add.le

end Dictionary

/-! ## §3. Passes. -/

/-- A step by itself observes nothing. -/
theorem Walk.snapshot?_of_mem_step [Source γ] (s : Settings ω) (w : Walk τ γ) :
    ∀ e ∈ (w.step s).journal, e.snapshot? = none := by
  intro e he
  obtain ⟨k, v, row, col, rfl⟩ | ⟨id, col, z, rfl⟩ := mem_journal_step he
  · rfl
  · rfl

namespace Invocation

variable [Source γ] {terms : Terms ω} {i : Invocation ω τ γ}

/-- **A pass that takes a step reports first**, and observes nothing
after that. -/
theorem pass_written (hlimit : spentLimit terms i = none) :
    ∃ events, (pass terms i).journal
        = Journal.observation terms.clock i.steps i.walk.dictionary ++ events
      ∧ events.snapshots = [] ∧ events.pivots = (pass terms i).journal.pivots := by
  have hnone := snapshot?_of_mem_conclude terms i.publish
    (i.walk.snapshot?_of_mem_step terms.settings)
  refine ⟨_, ?_, Journal.snapshots_eq_nil hnone, ?_⟩
  · unfold pass
    rw [hlimit]
    rfl
  · unfold pass
    rw [hlimit]
    dsimp only
    rw [Journal.pivots_append, pivots_report, List.nil_append]

/-- **The passes of an invocation are a chronicle**: each pivot is one
pass, and a status that cannot be resumed was found in one more. -/
theorem passes_chronicle (room : Nat) {i : Invocation ω τ γ} {status : Status}
    (h : (passes terms room i).result = .ok status) :
    ∃ visited sources,
      i.walk.dictionary.Trajectory terms.settings i.walk.source
          (passes terms room i).journal.pivots visited sources
        ∧ visited (passes terms room i).journal.pivots.length
            = (passes terms room i).invocation.walk.dictionary
        ∧ (passes terms room i).journal.Chronicle terms.clock i.steps
            ((passes terms room i).journal.pivots.length + if status.isResumable then 0 else 1)
            (passes terms room i).journal.pivots visited := by
  induction room generalizing i with
  | zero => cases h
  | succ room ih =>
      cases hverdict : (pass terms i).verdict with
      | stopped fault =>
          rw [passes_of_stopped hverdict] at h
          cases h
      | done status' =>
          rw [passes_of_done hverdict] at h ⊢
          obtain rfl := Except.ok.inj h
          dsimp only
          have hlasts : ∀ fault, (pass terms i).verdict ≠ .stopped fault := by simp [hverdict]
          obtain ⟨limit, -, hpass⟩ | ⟨r, d', source', hlimit, hsteps, hroom⟩ := pass_cases hlasts
          · rw [hpass] at hverdict ⊢
            cases hverdict
            exact ⟨_, _, .nil, rfl, ⟨fun _ => [], _, rfl, fun k hk => (by cases hk), rfl, rfl⟩⟩
          · obtain ⟨events, hjournal, hsnapshots, hevents⟩ := pass_written hlimit
            obtain ⟨hwalk, -, hpivots, hdone⟩ := pass_of_steps hlimit hsteps hroom
            rw [hverdict] at hdone
            rw [hpivots] at hevents ⊢
            rw [hjournal, hwalk]
            obtain ⟨rfl, rfl⟩ | ⟨col, id, rfl, -, rfl⟩ | ⟨c, eliminated, rfl, rfl⟩ :=
              StepResult.verdict_eq_done hdone.symm
            · cases hsteps
              exact ⟨_, _, .nil, rfl, .one hsnapshots hevents⟩
            · cases hsteps
              exact ⟨_, _, .nil, rfl, .one hsnapshots hevents⟩
            · exact ⟨_, _, .cons hsteps .nil, rfl, .one hsnapshots hevents⟩
      | goOn =>
          rw [passes_of_goOn hverdict] at h ⊢
          obtain ⟨hlimit, c, eliminated, hsteps, hpivots, hcount, -⟩ := pass_goOn hverdict
          obtain ⟨events, hjournal, hsnapshots, hevents⟩ := pass_written hlimit
          obtain ⟨visited, sources, htrajectory, hlast, hchronicle⟩ := ih h
          dsimp only
          rw [Journal.pivots_append, hpivots, List.singleton_append, List.length_cons,
            Nat.add_right_comm]
          rw [hcount] at hchronicle
          rw [hpivots] at hevents
          refine ⟨_, _, .cons hsteps htrajectory, hlast, ?_⟩
          rw [hjournal]
          exact .cons hsnapshots hevents hchronicle

/-- Passes keep the shared cell, whatever they write to it. -/
theorem shared_passes (terms : Terms ω) (room : Nat) (i : Invocation ω τ γ) (last : Snapshot ω) :
    (passes terms room i).invocation.shared.map (fun _ => last)
      = i.shared.map fun _ => last := by
  have hpass : ∀ i : Invocation ω τ γ, (pass terms i).invocation.shared.map (fun _ => last)
      = i.shared.map fun _ => last := by
    intro i
    unfold pass
    split
    · rfl
    · rw [shared_conclude]
      exact Option.map_map _ _ _
  induction room generalizing i with
  | zero => rfl
  | succ room ih =>
      cases hverdict : (pass terms i).verdict with
      | stopped fault =>
          rw [passes_of_stopped hverdict]
          exact hpass i
      | done status =>
          rw [passes_of_done hverdict]
          exact hpass i
      | goOn =>
          rw [passes_of_goOn hverdict]
          exact (ih _).trans (hpass i)

end Invocation

/-! ## §4. Invocations. -/

variable [Source γ]

/-- **An invocation with an outcome**, written out: its passes between the
event that opens it and those that close it, and the shared cell with the
state behind the last pass. -/
theorem Loop.run_written {loop : Loop ω γ} {clock : Nat → Bool} {d : Dictionary τ}
    {o : Outcome ω} (h : (loop.run clock d).result = .ok o) :
    ∃ limit source, loop.settings.budget.draw loop.source = .ok (limit, source)
      ∧ ∃ ended : Invocation.Ended ω τ γ,
        Invocation.passes ⟨loop.settings, limit, clock⟩ (UInt64.size - loop.totalSteps)
            ⟨⟨d, source, loop.totalSteps⟩, 0, loop.shared⟩ = ended
          ∧ ended.result = .ok o.status
          ∧ o = ended.invocation.outcome o.status
          ∧ (loop.run clock d).dictionary = ended.invocation.walk.dictionary
          ∧ (loop.run clock d).journal
              = .started (loop.invocations + 1) d.tableau.height d.tableau.width d.phase
                  d.artificials limit
                :: ended.journal ++ closingEvents (loop.invocations + 1) o
          ∧ (loop.run clock d).loop.shared
              = ended.invocation.shared.map fun _ => ended.invocation.snapshot := by
  unfold run close at h ⊢
  split at h
  · cases h
  next hcount =>
    rw [if_neg hcount]
    dsimp only at h ⊢
    split at h
    · cases h
    next limit source hdraw =>
      generalize hended : Invocation.run _ (⟨walk _ d, 0, loop.shared⟩ : Invocation ω τ γ) = ended
        at h ⊢
      split at h
      · cases h
      next status hstatus =>
        cases h
        exact ⟨limit, source, hdraw, ended, hended, hstatus, rfl, rfl, rfl, rfl⟩

/-- **Reports that are consistent with the run**: of an invocation of a
loop that visited some dictionaries and ended with an outcome. -/
structure Outcome.Reported (o : Outcome ω) (loop : Loop ω γ) (clock : Nat → Bool)
    (visited : Nat → Dictionary τ) (ran : Ran ω τ γ) : Prop where
  /-- In each pass there is at most one observation, and it comes before
  the step. -/
  chronicle : ∃ (opening : Event ω τ) (journal : Journal ω τ),
    ran.journal = opening :: journal ++ Loop.closingEvents (loop.invocations + 1) o
      ∧ opening.snapshot? = none ∧ opening.pivot? = none
      ∧ journal.Chronicle clock 0 o.passes ran.journal.pivots visited
  /-- The observer is handed a snapshot exactly where the clock says so. -/
  snapshots : ran.journal.snapshots
    = ((List.range o.passes).filter clock).map fun k => Snapshot.ofDictionary k (visited k)
  increasing : (ran.journal.snapshots.map Snapshot.step).Pairwise (· < ·)
  bounded : ∀ snap ∈ ran.journal.snapshots, snap.step ≤ o.steps
  /-- A snapshot is of the dictionary after as many pivots. -/
  faithful : ∀ snap ∈ ran.journal.snapshots,
    snap.objective = Element.widen (visited snap.step).objective
      ∧ snap.artificials = (visited snap.step).artificials ∧ snap.workers = 0
  decreasing : ran.journal.snapshots.Pairwise fun a b => b.artificials ≤ a.artificials
  complete : (∀ k < o.passes, clock k = true) →
    ran.journal.snapshots.map Snapshot.step = List.range o.passes
  /-- A shared cell is left with the outcome, whatever it is. -/
  shared : ran.loop.shared = loop.shared.map fun _ => ⟨o.steps, o.objective, o.artificials, 0⟩

/-- **PROGRESS REPORTS ARE CONSISTENT WITH THE RUN.**  Let an invocation end
with an outcome, whatever its settings, its source of coins and its clock.
Its pivots lead from one dictionary to the next, from the one it was given
to the one it left, and its reports are about them:

  * before each step, and only there, the observer is told of the
    dictionary it starts from, if the clock says so; the objective value
    and the number of artificial variables are those after as many pivots
    as the snapshot says;
  * the step numbers increase and do not exceed the steps of the outcome,
    and the number of artificial variables never grows;
  * if every report is due there is one for each step that was tried, which
    is one more than the pivots if the outcome is optimal or unbounded, and
    as many if it is feasible or the budget is spent;
  * a cell that is shared is left with the outcome. -/
theorem Loop.run_reported (loop : Loop ω γ) (clock : Nat → Bool) {d : Dictionary τ}
    {o : Outcome ω} (h : (loop.run clock d).result = .ok o) :
    ∃ limit source visited sources,
      loop.settings.budget.draw loop.source = .ok (limit, source)
        ∧ d.Trajectory loop.settings source (loop.run clock d).journal.pivots visited sources
        ∧ o.steps = (loop.run clock d).journal.pivots.length
        ∧ visited o.steps = (loop.run clock d).dictionary
        ∧ o.Reported loop clock visited (loop.run clock d) := by
  obtain ⟨limit, source, hdraw, ended, hended, hstatus, ho, hdictionary, hjournal, hshared⟩ :=
    run_written h
  rw [← hended] at hstatus
  obtain ⟨visited, sources, htrajectory, hlast, hchronicle⟩ :=
    Invocation.passes_chronicle _ hstatus
  obtain ⟨-, -, -, hcount, -⟩ := Invocation.passes_path _ hstatus
  have hcell := Invocation.shared_passes ⟨loop.settings, limit, clock⟩
    (UInt64.size - loop.totalSteps) ⟨⟨d, source, loop.totalSteps⟩, 0, loop.shared⟩
    ended.invocation.snapshot
  rw [hended] at htrajectory hlast hchronicle hcount hcell
  have hpivots : (loop.run clock d).journal.pivots = ended.journal.pivots := by
    rw [hjournal, Journal.pivots_append, pivots_closingEvents, List.append_nil]
    rfl
  have hsteps : o.steps = ended.journal.pivots.length := by
    rw [ho]
    exact hcount.trans (Nat.zero_add _)
  have hpasses : ended.journal.pivots.length + (if o.status.isResumable then 0 else 1)
      = o.passes := by
    rw [← hsteps]
    rfl
  rw [hpasses] at hchronicle
  have hsnapshots : (loop.run clock d).journal.snapshots
      = ((List.range o.passes).filter clock).map
          fun k => Snapshot.ofDictionary k (visited k) := by
    rw [hjournal, Journal.snapshots_append, snapshots_closingEvents, List.append_nil]
    exact hchronicle.snapshots_eq
  have hstep : (loop.run clock d).journal.snapshots.map Snapshot.step
      = (List.range o.passes).filter clock := by
    rw [hsnapshots, List.map_map]
    exact List.map_id _
  have hmem : ∀ snap ∈ (loop.run clock d).journal.snapshots,
      ∃ k, k < o.passes ∧ snap = Snapshot.ofDictionary k (visited k) := by
    intro snap hsnap
    rw [hsnapshots] at hsnap
    obtain ⟨k, hk, rfl⟩ := List.mem_map.1 hsnap
    exact ⟨k, List.mem_range.1 (List.mem_filter.1 hk).1, rfl⟩
  have hle := o.passes_le
  refine ⟨limit, source, visited, sources, hdraw, ?_, ?_, ?_,
    ⟨?_, hsnapshots, ?_, ?_, ?_, ?_, ?_, ?_⟩⟩
  · rw [hpivots]
    exact htrajectory
  · rw [hpivots]
    exact hsteps
  · rw [hsteps, hlast, hdictionary]
  · rw [hpivots]
    exact ⟨_, _, hjournal, rfl, rfl, hchronicle⟩
  · rw [hstep]
    exact List.pairwise_lt_range.filter _
  · intro snap hsnap
    obtain ⟨k, hk, rfl⟩ := hmem snap hsnap
    show k ≤ o.steps
    omega
  · intro snap hsnap
    obtain ⟨k, -, rfl⟩ := hmem snap hsnap
    exact ⟨rfl, rfl, rfl⟩
  · rw [hsnapshots]
    refine List.pairwise_map.2 (List.Pairwise.imp_of_mem ?_ (List.pairwise_lt_range.filter _))
    intro j k _ hk hlt
    have hk := List.mem_range.1 (List.mem_filter.1 hk).1
    exact htrajectory.artificials_le hlt.le (by omega)
  · intro hdue
    rw [hstep]
    exact List.filter_eq_self.2 fun k hk => hdue k (List.mem_range.1 hk)
  · rw [hshared, hcell, ho]
    rfl

/-- A loop that goes on into phase 2 and shares its progress. -/
def Loop.watched : Loop Rat (Nat → UInt64) := { Loop.onward with shared := some ⟨0, 0, 0, 0⟩ }

/-- The two equations take two steps and are optimal at a third one.  With
no report due before the second step, the observer hears of steps 0 and 2,
and the shared cell is left with the outcome. -/
theorem Loop.run_reported_twoEquations :
    let clock : Nat → Bool := (· != 1)
    ∃ visited, Outcome.Reported ⟨.optimal, 2, 0, 0, 0⟩ Loop.watched clock visited
        (Loop.watched.run clock Dictionary.twoEquations)
      ∧ (Loop.watched.run clock Dictionary.twoEquations).journal.snapshots.map Snapshot.step
        = [0, 2]
      ∧ (Loop.watched.run clock Dictionary.twoEquations).loop.shared = some ⟨2, 0, 0, 0⟩ := by
  have hrun : (Loop.watched.run (· != 1) Dictionary.twoEquations).result
      = .ok ⟨.optimal, 2, 0, 0, 0⟩ := by cbv
  obtain ⟨-, -, visited, -, -, -, -, -, hreported⟩ := Loop.run_reported Loop.watched _ hrun
  refine ⟨visited, hreported, ?_, hreported.shared⟩
  rw [hreported.snapshots]
  rfl

end DenseSimplex
