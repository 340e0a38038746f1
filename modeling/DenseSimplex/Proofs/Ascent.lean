/-
  DenseSimplex.Proofs.Ascent
  ──────────────────────────
  **PIVOTS OF POSITIVE LENGTH NEVER COME BACK TO A BASIS.**

  Let `prec = pivotTol = 0`.  A pivot with a positive ratio raises the
  objective, and as long as nothing is eliminated the variables of the
  rows decide what the objective is.  So along a stretch of such pivots

      d  →  d₁  →  d₂  →  …  →  dₙ

  no two of the sets `dᵢ.left` are equal (`Ascends.pairwise`).  All of them
  are sets of L out of the same L + R variables, and hence the stretch has
  fewer than `(L + R).choose L` pivots (`Visits.bases_distinct`).

  A stretch may be made of single steps, of passes of invocations, or of
  whole invocations, with a change of settings or of the source of coins
  after each pivot.
-/
import DenseSimplex.Proofs.Objective
import DenseSimplex.Proofs.Invocations

namespace DenseSimplex

/-! ## §1. Stretches of pivots. -/

/-- **A pass makes one pivot, or it ends the invocation without one.** -/
theorem Invocation.pass_pivots {γ : Type} [Source γ] (terms : Terms Rat)
    (i : Invocation Rat Rat γ) (hd : i.walk.dictionary.WellFormed) :
    (∃ c e, (pass terms i).journal.pivots = [c]
        ∧ (pass terms i).journal.eliminations = e.toList
        ∧ i.walk.dictionary.Moves terms.settings (.pivoted c e)
          (pass terms i).invocation.walk.dictionary)
      ∨ ((pass terms i).journal.pivots = [] ∧ (pass terms i).verdict ≠ .goOn) := by
  cases hlimit : spentLimit terms i with
  | some limit =>
      right
      unfold pass
      rw [hlimit]
      exact ⟨rfl, by simp⟩
  | none =>
      cases hr : (i.walk.step terms.settings).result with
      | error fault =>
          obtain ⟨hverdict, hnone⟩ := pass_of_error hlimit hr
          right
          rw [hverdict]
          exact ⟨hnone, by simp⟩
      | ok r =>
          obtain ⟨hsteps, hroom⟩ := Walk.steps_of_ok hr
          obtain ⟨-, -, hpivots, hverdict⟩ := pass_of_steps hlimit hsteps hroom
          obtain ⟨hmove, hids⟩ := Walk.moves_of_step terms.settings i.walk hd hr
          obtain ⟨hwalk, helim, -⟩ := pass_step hlimit
          rw [hpivots, hverdict, helim, hids, hwalk]
          cases r with
          | pivoted c e => exact .inl ⟨c, e, rfl, rfl, hmove⟩
          | optimal => exact .inr ⟨rfl, by simp [StepResult.verdict]⟩
          | unbounded col =>
              refine .inr ⟨rfl, fun hgo => ?_⟩
              obtain ⟨c, e, hpivoted⟩ := StepResult.verdict_eq_goOn hgo
              cases hpivoted

namespace Dictionary

/-- **A stretch of pivots**, each of positive length and without an
elimination, made by single steps or by passes of invocations; what each
pivot left behind is listed in order. -/
inductive Ascends (P : Settings Rat → Prop) : Dictionary Rat → List (Dictionary Rat) → Prop where
  | nil {d : Dictionary Rat} : Ascends P d []
  | step {γ : Type} [Source γ] {d : Dictionary Rat} {ds : List (Dictionary Rat)}
      (loop : Loop Rat γ) (hs : P loop.settings) {c : Choice Rat}
      (hr : (loop.step d).2.result = .ok (.pivoted c none)) (hpos : 0 < c.ratio)
      (rest : Ascends P (loop.step d).2.walk.dictionary ds) :
      Ascends P d ((loop.step d).2.walk.dictionary :: ds)
  | pass {γ : Type} [Source γ] {i : Invocation Rat Rat γ} {ds : List (Dictionary Rat)}
      (terms : Terms Rat) (hs : P terms.settings) {c : Choice Rat}
      (hc : (i.pass terms).journal.pivots = [c]) (he : (i.pass terms).journal.eliminations = [])
      (hpos : 0 < c.ratio) (rest : Ascends P (i.pass terms).invocation.walk.dictionary ds) :
      Ascends P i.walk.dictionary ((i.pass terms).invocation.walk.dictionary :: ds)

/-! ## §2. No basis occurs twice. -/

/-- One dictionary comes before another: the same problem with a better
objective. -/
structure Rises (d d' : Dictionary Rat) : Prop where
  reaches : Reaches Settings.IsExact d [] d'
  objective_lt : d.objective < d'.objective

theorem Rises.trans {d d₁ d' : Dictionary Rat} (h : d.Rises d₁) (h' : d₁.Rises d') :
    d.Rises d' :=
  ⟨h.reaches.trans h'.reaches, h.objective_lt.trans h'.objective_lt⟩

/-- **A pivot of positive length is a rise.** -/
theorem Moves.rises {s : Settings Rat} (hs : s.IsExact) {d d' : Dictionary Rat} {c : Choice Rat}
    (h : d.Moves s (.pivoted c none) d') (hd : d.Feasible) (hpos : 0 < c.ratio) : d.Rises d' := by
  obtain ⟨hsum, hnonneg, hzero⟩ := h.objective_spec hs hd
  have hgain : 0 < c.gain := by
    apply lt_of_le_of_ne hnonneg
    intro hgain
    exact hpos.ne' (hzero hgain.symm)
  refine ⟨.single hs h, ?_⟩
  rw [hsum]
  exact lt_add_of_pos_right _ hgain

/-- **Along a stretch everything rises over everything before it.** -/
theorem Ascends.pairwise {d : Dictionary Rat} {ds : List (Dictionary Rat)}
    (h : Ascends Settings.IsExact d ds) (hd : d.Sound) : (d :: ds).Pairwise Rises := by
  -- what the first pivot rises to is below all the rest
  have hcons : ∀ {d d₁ : Dictionary Rat} {ds : List (Dictionary Rat)}, d.Rises d₁ →
      (d₁ :: ds).Pairwise Rises → (d :: d₁ :: ds).Pairwise Rises := by
    intro d d₁ ds hrise hrest
    refine List.pairwise_cons.2 ⟨?_, hrest⟩
    intro d' hd'
    rcases List.mem_cons.1 hd' with rfl | hd'
    · exact hrise
    · exact hrise.trans ((List.pairwise_cons.1 hrest).1 d' hd')
  induction h with
  | nil => exact List.pairwise_singleton _ _
  | step loop hs hr hpos _ ih =>
      have hmove := (Walk.moves_of_step loop.settings _ hd.wellFormed hr).1
      exact hcons (hmove.rises hs hd.feasible hpos) (ih (hmove.sound hs.tight hd))
  | pass terms hs hc he hpos _ ih =>
      obtain ⟨c', e, hc', he', hmove⟩ | ⟨hnone, -⟩ :=
        Invocation.pass_pivots terms _ hd.wellFormed
      · obtain rfl := List.singleton_inj.1 (hc'.symm.trans hc)
        obtain rfl : e = none := Option.toList_eq_nil_iff.1 (he'.symm.trans he)
        exact hcons (hmove.rises hs hd.feasible hpos) (ih (hmove.sound hs.tight hd))
      · rw [hnone] at hc
        cases hc

theorem WellFormed.mem_right_iff {d : Dictionary Rat} (hd : d.WellFormed) {id : Int} :
    id ∈ d.right ↔ id ∈ d.labels ∧ id ∉ d.left := by
  constructor
  · intro hid
    exact ⟨List.mem_append_right _ hid, fun hleft => hd.not_mem_right hleft hid⟩
  · rintro ⟨hid, hleft⟩
    exact (List.mem_append.1 hid).resolve_left hleft

/-- **A rise changes the set of basic variables.** -/
theorem Rises.left_ne {d d' : Dictionary Rat} (h : d.Rises d') (hd : d.WellFormed) :
    d.left.toFinset ≠ d'.left.toFinset := by
  intro hleft
  have hd' := h.reaches.wellFormed hd
  have hright : d'.right.toFinset = d.right.toFinset := by
    ext id
    have hlabels : id ∈ d.labels ↔ id ∈ d'.labels := h.reaches.labels_perm.mem_iff
    have hbasic : id ∈ d.left ↔ id ∈ d'.left := by
      rw [← List.mem_toFinset, hleft, List.mem_toFinset]
    rw [List.mem_toFinset, List.mem_toFinset, hd'.mem_right_iff, hd.mem_right_iff, hlabels, hbasic]
  have hsame := h.reaches.objective_eq (fun _ hs => hs.prec) hd hright
  exact h.objective_lt.ne' hsame

/-- As long as nothing is eliminated, all bases are choices of as many
variables from the same ones. -/
theorem Reaches.left_mem_powersetCard {P : Settings Rat → Prop} {d d' : Dictionary Rat}
    (h : Reaches P d [] d') (hd : d.WellFormed) :
    d'.left.toFinset ∈ d.labels.toFinset.powersetCard d.tableau.height := by
  have hnodup : d'.left.Nodup := (List.nodup_append.1 (h.wellFormed hd).nodup).1
  rw [Finset.mem_powersetCard]
  constructor
  · intro id hid
    rw [List.mem_toFinset] at hid ⊢
    exact h.labels_perm.mem_iff.2 (List.mem_append_right [] (List.mem_append_left _ hid))
  · rw [List.toFinset_card_of_nodup hnodup, h.length_left, hd.left_length]

/-- **No basis occurs twice along a stretch, and so it is short.** -/
theorem Ascends.bases {d : Dictionary Rat} {ds : List (Dictionary Rat)}
    (h : Ascends Settings.IsExact d ds) (hd : d.Sound) :
    ((d :: ds).map fun d' => d'.left.toFinset).Nodup
      ∧ ds.length < (d.tableau.height + d.tableau.width).choose d.tableau.height := by
  have hpairwise := h.pairwise hd
  have hreaches : ∀ d' ∈ d :: ds, Reaches Settings.IsExact d [] d' := by
    intro d' hd'
    rcases List.mem_cons.1 hd' with rfl | hd'
    · exact .start
    · exact ((List.pairwise_cons.1 hpairwise).1 d' hd').reaches
  have hnodup : ((d :: ds).map fun d' => d'.left.toFinset).Nodup := by
    rw [List.Nodup, List.pairwise_map]
    apply hpairwise.imp_of_mem
    intro a b ha _ hab
    exact hab.left_ne ((hreaches a ha).wellFormed hd.wellFormed)
  refine ⟨hnodup, ?_⟩
  have hsubset : ((d :: ds).map fun d' => d'.left.toFinset).toFinset
      ⊆ d.labels.toFinset.powersetCard d.tableau.height := by
    intro basis hbasis
    obtain ⟨d', hd', rfl⟩ := List.mem_map.1 (List.mem_toFinset.1 hbasis)
    exact (hreaches d' hd').left_mem_powersetCard hd.wellFormed
  have hlabels : d.labels.toFinset.card = d.tableau.height + d.tableau.width := by
    rw [List.toFinset_card_of_nodup hd.wellFormed.nodup, hd.wellFormed.length_labels,
      hd.wellFormed.left_length]
  have hcard := Finset.card_le_card hsubset
  rw [List.toFinset_card_of_nodup hnodup, List.length_map, List.length_cons,
    Finset.card_powersetCard, hlabels] at hcard
  exact hcard

end Dictionary

/-! ## §3. Invocations. -/

namespace Invocation

variable {P : Settings Rat → Prop} {γ : Type} [Source γ] {terms : Terms Rat}

/-- A pass by itself is a stretch, of one pivot or of none. -/
theorem pass_ascends (hs : P terms.settings) {i : Invocation Rat Rat γ}
    (hd : i.walk.dictionary.WellFormed) (helim : (pass terms i).journal.eliminations = [])
    (hpos : ∀ c ∈ (pass terms i).journal.pivots, 0 < c.ratio) :
    ∃ ds, i.walk.dictionary.Ascends P ds ∧ ds.length = (pass terms i).journal.pivots.length := by
  obtain ⟨c, -, hc, -, -⟩ | ⟨hnone, -⟩ := pass_pivots terms i hd
  · have hratio := hpos c (by rw [hc]; exact List.mem_singleton_self c)
    refine ⟨_, .pass terms hs hc helim hratio .nil, ?_⟩
    rw [hc]
    rfl
  · rw [hnone]
    exact ⟨[], .nil, rfl⟩

/-- **The passes of an invocation are a stretch** if all its pivots have
positive ratios and nothing is eliminated, whatever ends it. -/
theorem passes_ascends (hs : P terms.settings) (room : Nat) {i : Invocation Rat Rat γ}
    (hd : i.walk.dictionary.WellFormed)
    (helim : (passes terms room i).journal.eliminations = [])
    (hpos : ∀ c ∈ (passes terms room i).journal.pivots, 0 < c.ratio) :
    ∃ ds, i.walk.dictionary.Ascends P ds
      ∧ ds.length = (passes terms room i).journal.pivots.length := by
  induction room generalizing i with
  | zero => exact ⟨[], .nil, rfl⟩
  | succ room ih =>
      cases hverdict : (pass terms i).verdict with
      | stopped fault =>
          rw [passes_of_stopped hverdict] at helim hpos ⊢
          exact pass_ascends hs hd helim hpos
      | done status =>
          rw [passes_of_done hverdict] at helim hpos ⊢
          exact pass_ascends hs hd helim hpos
      | goOn =>
          rw [passes_of_goOn hverdict] at helim hpos ⊢
          dsimp only at helim hpos ⊢
          rw [Journal.eliminations_append, List.append_eq_nil_iff] at helim
          rw [Journal.pivots_append] at hpos ⊢
          obtain ⟨c, e, hc, -, hmove⟩ | ⟨-, hends⟩ := pass_pivots terms i hd
          · obtain ⟨ds, hds, hlength⟩ := ih (hmove.wellFormed hd) helim.2
              (fun c hc => hpos c (List.mem_append_right _ hc))
            have hratio : 0 < c.ratio := by
              apply hpos
              rw [hc]
              exact List.mem_append_left _ (List.mem_singleton_self c)
            refine ⟨_, .pass terms hs hc helim.1 hratio hds, ?_⟩
            rw [hc, List.length_cons, hlength, List.length_append, List.length_singleton,
              Nat.add_comm]
          · exact absurd hverdict hends

end Invocation

/-- An invocation tells of the pivots and eliminations of its passes, or
of none. -/
theorem Loop.run_tells {γ : Type} [Source γ] (loop : Loop Rat γ) (clock : Nat → Bool)
    (d : Dictionary Rat) :
    (loop.run clock d).journal.pivots = []
      ∨ ∃ (terms : Terms Rat) (room : Nat) (i : Invocation Rat Rat γ),
        terms.settings = loop.settings ∧ i.walk.dictionary = d
          ∧ (loop.run clock d).journal.pivots = (i.passes terms room).journal.pivots
          ∧ (loop.run clock d).journal.eliminations
            = (i.passes terms room).journal.eliminations := by
  unfold run close
  split
  · exact .inl rfl
  · dsimp only
    split
    · exact .inl rfl
    next limit source _ =>
      right
      refine ⟨⟨loop.settings, limit, clock⟩, UInt64.size - loop.totalSteps,
        ⟨⟨d, source, loop.totalSteps⟩, 0, loop.shared⟩, rfl, rfl, ?_⟩
      -- the events before the first pass and after the last one tell of neither
      split
      · exact ⟨rfl, rfl⟩
      · rw [Journal.pivots_append, Journal.eliminations_append, pivots_closingEvents,
          eliminations_closingEvents, List.append_nil, List.append_nil]
        exact ⟨rfl, rfl⟩

/-- **An invocation is a stretch** if all its pivots have positive ratios
and nothing is eliminated. -/
theorem Loop.run_ascends {P : Settings Rat → Prop} {γ : Type} [Source γ] (loop : Loop Rat γ)
    (hs : P loop.settings) (clock : Nat → Bool) {d : Dictionary Rat} (hd : d.WellFormed)
    (helim : (loop.run clock d).journal.eliminations = [])
    (hpos : ∀ c ∈ (loop.run clock d).journal.pivots, 0 < c.ratio) :
    ∃ ds, d.Ascends P ds ∧ ds.length = (loop.run clock d).journal.pivots.length := by
  obtain hnone | ⟨terms, room, i, hterms, rfl, hpivots, hids⟩ := loop.run_tells clock d
  · rw [hnone]
    exact ⟨[], .nil, rfl⟩
  · rw [← hterms] at hs
    rw [hids] at helim
    rw [hpivots] at hpos ⊢
    exact Invocation.passes_ascends hs room hd helim hpos

/-- **PIVOTS OF POSITIVE LENGTH DO NOT GO ON FOR EVER.**  Wherever steps
and invocations lead from a valid dictionary without negative right-hand
sides, in exact arithmetic and with any sources of coins:

  * along a stretch of pivots that have positive ratios and eliminate
    nothing, no set of basic variables occurs twice, and with L rows and R
    columns there are fewer than `(L + R).choose L` pivots;
  * the same bound holds for the pivots of every invocation that is such a
    stretch. -/
theorem Visits.bases_distinct {d₀ d : Dictionary Rat} (hd : d₀.validate = .ok ())
    (hf : d₀.Feasible) (h : Visits Settings.IsExact d₀ d) :
    (∀ ds, d.Ascends Settings.IsExact ds →
        ((d :: ds).map fun d' => d'.left.toFinset).Nodup
          ∧ ds.length < (d.tableau.height + d.tableau.width).choose d.tableau.height)
      ∧ ∀ {γ : Type} [Source γ] (loop : Loop Rat γ), loop.settings.IsExact → ∀ clock,
        (loop.run clock d).journal.eliminations = [] →
        (∀ c ∈ (loop.run clock d).journal.pivots, 0 < c.ratio) →
        (loop.run clock d).journal.pivots.length
          < (d.tableau.height + d.tableau.width).choose d.tableau.height := by
  have hsound₀ : d₀.Sound := ⟨Dictionary.validate_rat_iff.1 hd, hf⟩
  obtain ⟨ids, hreach⟩ := h.reaches (fun _ hs => hs.tight) hsound₀
  have hsound := hreach.sound (fun _ hs => hs.tight) hsound₀
  refine ⟨fun ds hds => hds.bases hsound, fun loop hs clock helim hpos => ?_⟩
  obtain ⟨ds, hds, hlength⟩ := loop.run_ascends hs clock hsound.wellFormed helim hpos
  rw [← hlength]
  exact (hds.bases hsound).2

/-- The rows `x₃ = 1 - x₁` and `x₄ = 1 - x₂` with objective `x₁ + x₂`. -/
def Dictionary.square : Dictionary Rat where
  tableau := ⟨⟨0, [1, 1]⟩, [⟨1, [-1, 0]⟩, ⟨1, [0, -1]⟩], by decide⟩
  left := [3, 4]
  right := [1, 2]
  artificials := 0

/-- The square after its first pivot: `x₁` has taken the place of `x₃`. -/
def Dictionary.square₁ : Dictionary Rat := (Loop.exact.step Dictionary.square).2.walk.dictionary

/-- From one corner of the square to the opposite one there are two pivots,
and six bases allow five. -/
theorem Visits.bases_distinct_square :
    Dictionary.square.Ascends Settings.IsExact
        [.square₁, (Loop.exact.step Dictionary.square₁).2.walk.dictionary]
      ∧ ([Dictionary.square, .square₁, (Loop.exact.step Dictionary.square₁).2.walk.dictionary].map
          fun d => d.left.toFinset).Nodup
      ∧ (Loop.exact.run (fun _ => false) Dictionary.square).journal.pivots.map Choice.ratio = [1, 1]
      ∧ (Loop.exact.run (fun _ => false) Dictionary.square).journal.pivots.length < 6 := by
  have hexact : Loop.exact.settings.IsExact := ⟨rfl, rfl, le_refl 0⟩
  have hf : Dictionary.square.Feasible := by
    show ∀ v ∈ [(1 : Rat), 1], 0 ≤ v
    norm_num
  obtain ⟨hstretch, hrun⟩ := Visits.bases_distinct (by rfl) hf .start
  have hstep : (Loop.exact.step Dictionary.square).2.result
      = .ok (.pivoted ⟨1, 1, -1, 1, 1, false, false⟩ none) := by cbv
  have hstep' : (Loop.exact.step Dictionary.square₁).2.result
      = .ok (.pivoted ⟨2, 2, -1, 1, 1, false, false⟩ none) := by cbv
  have hascends : Dictionary.square.Ascends Settings.IsExact
      [.square₁, (Loop.exact.step Dictionary.square₁).2.walk.dictionary] :=
    .step Loop.exact hexact hstep one_pos (.step Loop.exact hexact hstep' one_pos .nil)
  have hratios : (Loop.exact.run (fun _ => false) Dictionary.square).journal.pivots.map
      Choice.ratio = [1, 1] := by cbv
  have helim : (Loop.exact.run (fun _ => false) Dictionary.square).journal.eliminations = [] := by
    cbv
  have hpos : ∀ c ∈ (Loop.exact.run (fun _ => false) Dictionary.square).journal.pivots,
      0 < c.ratio := by
    intro c hc
    have hratio : c.ratio ∈ [1, 1] := by
      rw [← hratios]
      exact List.mem_map_of_mem hc
    have hone : c.ratio = 1 := by simpa using hratio
    rw [hone]
    exact one_pos
  exact ⟨hascends, (hstretch _ hascends).1, hratios,
    hrun Loop.exact hexact (fun _ => false) helim hpos⟩

end DenseSimplex
