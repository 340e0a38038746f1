/-
  DenseSimplex.Proofs.Paths
  ─────────────────────────
  **PATHS OF PIVOTS.**

  What a step does depends on the dictionary and on the source of coins.
  The counter of pivots has no part in it, except that a pivot needs room
  for one more.  So steps are read here as going from one position, a
  dictionary with a source, to another:

      d.Steps s source r d' source'     one step, with the result `r`
      d.Path s source cs d' source'     the pivots `cs`, one after another

  Every step without a fault is one (`Walk.steps_of_ok`), and every one is
  made wherever the counter has room for it (`Steps.step_eq`).  Neither
  needs a well-formed dictionary, or anything of the arithmetic.
-/
import DenseSimplex.Run

namespace DenseSimplex

/-! ## §1. Pivots and labels. -/

section

variable {ω τ : Type}

/-- The pivots that a step made: one or none. -/
def StepResult.pivots : StepResult τ → List (Choice τ)
  | .pivoted c _ => [c]
  | .optimal | .unbounded _ => []

theorem Journal.pivots_append (j j' : Journal ω τ) :
    Journal.pivots (j ++ j') = Journal.pivots j ++ Journal.pivots j' :=
  List.filterMap_append

theorem Dictionary.exchangeLabels_artificials {d exchanged : Dictionary τ} {row col : Nat}
    {leaving : Int} (h : d.exchangeLabels row col = .ok (leaving, exchanged)) :
    exchanged.artificials = d.artificials := by
  unfold exchangeLabels at h
  cases hrow : d.leftLabel row with
  | error fault => rw [hrow] at h; cases h
  | ok id =>
      cases hcol : d.rightLabel col with
      | error fault => rw [hrow, hcol] at h; cases h
      | ok id' =>
          rw [hrow, hcol] at h
          cases h
          rfl

theorem Dictionary.dropColumn_artificials {d dropped : Dictionary τ} {col : Nat}
    (h : d.dropColumn col = .ok dropped) : dropped.artificials + 1 = d.artificials := by
  unfold dropColumn at h
  cases hcol : d.rightLabel col with
  | error fault => rw [hcol] at h; cases h
  | ok id =>
      rw [hcol] at h
      simp only [bind, Except.bind] at h
      split at h
      · cases h
      · split at h
        · cases h
        next hpos =>
          cases hremoved : d.tableau.removeColumn col with
          | error fault => rw [hremoved] at h; cases h
          | ok tableau =>
              rw [hremoved] at h
              cases h
              exact Nat.succ_pred_eq_of_ne_zero hpos

/-- **Relabelling counts what it eliminates.** -/
theorem Dictionary.relabelled_artificials {d d' : Dictionary τ} {row col : Nat}
    {eliminated : Option Int} (h : d.relabelled row col = .ok (d', eliminated)) :
    d'.artificials + eliminated.toList.length = d.artificials := by
  unfold relabelled at h
  cases hexchange : d.exchangeLabels row col with
  | error fault => rw [hexchange] at h; cases h
  | ok pair =>
      obtain ⟨leaving, exchanged⟩ := pair
      rw [hexchange] at h
      simp only [bind, Except.bind] at h
      split at h
      · cases hdrop : exchanged.dropColumn col with
        | error fault => rw [hdrop] at h; cases h
        | ok dropped =>
            rw [hdrop] at h
            cases h
            exact (dropColumn_artificials hdrop).trans (exchangeLabels_artificials hexchange)
      · cases h
        exact exchangeLabels_artificials hexchange

end

variable {ω τ γ : Type} [Scalar τ] [Element ω τ]

/-! ## §2. Steps between positions. -/

/-- **A pivot can be made**: with any source, and wherever the counter has
room for it, it leads to the same dictionary. -/
structure Dictionary.Makes (s : Settings ω) (d : Dictionary τ) (c : Choice τ)
    (eliminated : Option Int) (d' : Dictionary τ) : Prop where
  relabelled : ∃ tableau,
    ({ d with tableau } : Dictionary τ).relabelled c.row c.col = .ok (d', eliminated)
  make_eq : ∀ {γ : Type} (source : γ) (t : Nat), t + 1 < UInt64.size →
    (⟨d, source, t⟩ : Walk τ γ).make s c
      = ⟨⟨d', source, t + 1⟩, d'.eliminationEvents c.col eliminated, .ok (.pivoted c eliminated)⟩

/-- A pivot that was made without a fault can be made. -/
theorem Walk.makes_of_ok {s : Settings ω} {w : Walk τ γ} {c : Choice τ} {r : StepResult τ}
    (h : (w.make s c).result = .ok r) :
    w.totalSteps + 1 < UInt64.size
      ∧ ∃ d' eliminated, r = .pivoted c eliminated ∧ w.dictionary.Makes s c eliminated d' := by
  unfold make settle at h
  split at h
  · cases h
  next tableau hpivot =>
    dsimp only at h
    split at h
    · cases h
    next hviolation =>
      split at h
      · cases h
      next after eliminated hlabels =>
        split at h
        · cases h
        next hcorruption =>
          split at h
          next hroom =>
            cases h
            refine ⟨hroom, after, eliminated, rfl, ⟨tableau, hlabels⟩, fun source t ht => ?_⟩
            unfold make settle
            rw [hpivot]
            dsimp only
            rw [hviolation, hlabels]
            dsimp only
            rw [hcorruption, if_pos ht]
          · cases h

/-- **A pivot counts what it eliminates.** -/
theorem Dictionary.Makes.artificials_add {s : Settings ω} {d d' : Dictionary τ} {c : Choice τ}
    {eliminated : Option Int} (h : d.Makes s c eliminated d') :
    d'.artificials + eliminated.toList.length = d.artificials := by
  obtain ⟨tableau, hlabels⟩ := h.relabelled
  have hcount := relabelled_artificials hlabels
  exact hcount

/-- Without artificial variables a pivot eliminates nothing. -/
theorem Dictionary.Makes.artificials_eq_zero {s : Settings ω} {d d' : Dictionary τ} {c : Choice τ}
    {eliminated : Option Int} (h : d.Makes s c eliminated d') (hzero : d.artificials = 0) :
    d'.artificials = 0 ∧ eliminated = none := by
  have hsum := h.artificials_add
  cases eliminated with
  | none => exact ⟨hsum.trans hzero, rfl⟩
  | some id =>
      rw [Option.toList_some, List.length_singleton] at hsum
      omega

/-- What making a pivot tells of: a right-hand side that was violated, or
an artificial variable that was eliminated. -/
theorem Walk.mem_journal_make {s : Settings ω} {w : Walk τ γ} {c : Choice τ} {e : Event ω τ}
    (h : e ∈ (w.make s c).journal) :
    (∃ k v row col, e = .violated k v row col) ∨ ∃ id col z, e = .eliminated id col z := by
  have helimination : ∀ {d : Dictionary τ} {col : Nat} {eliminated : Option Int},
      e ∈ (d.eliminationEvents col eliminated : Journal ω τ) →
      ∃ id col z, e = .eliminated id col z := by
    intro d col eliminated he
    cases eliminated with
    | none => cases he
    | some id => exact ⟨id, col, d.artificials, List.mem_singleton.1 he⟩
  unfold make settle at h
  split at h
  · cases h
  · dsimp only at h
    split at h
    next k v _ => exact .inl ⟨k, v, c.row, c.col, List.mem_singleton.1 h⟩
    · split at h
      · cases h
      · split at h
        · exact .inr (helimination h)
        · split at h
          · exact .inr (helimination h)
          · exact .inr (helimination h)

variable [Source γ]

/-- **A step from one position to another**, with its result, wherever the
counter stands. -/
inductive Dictionary.Steps (s : Settings ω) (d : Dictionary τ) (source : γ) :
    StepResult τ → Dictionary τ → γ → Prop where
  | optimal {source' : γ}
      (h : Selection.ofDictionary (s.limits τ) d source = (.noPivot, source')) :
      Steps s d source .optimal d source'
  | unbounded {col : Nat} {source' : γ}
      (h : Selection.ofDictionary (s.limits τ) d source = (.unbounded col, source')) :
      Steps s d source (.unbounded col) d source'
  | pivoted {c : Choice τ} {eliminated : Option Int} {d' : Dictionary τ} {source' : γ}
      (h : Selection.ofDictionary (s.limits τ) d source = (.found c, source'))
      (hmake : d.Makes s c eliminated d') : Steps s d source (.pivoted c eliminated) d' source'

/-- **A step without a fault is a step between positions.** -/
theorem Walk.steps_of_ok {s : Settings ω} {w : Walk τ γ} {r : StepResult τ}
    (h : (w.step s).result = .ok r) :
    w.dictionary.Steps s w.source r (w.step s).walk.dictionary (w.step s).walk.source
      ∧ (r.pivots ≠ [] → w.totalSteps + 1 < UInt64.size) := by
  unfold step at h ⊢
  split at h
  next after hsel =>
    cases h
    exact ⟨.optimal hsel, fun hne => absurd rfl hne⟩
  next col after hsel =>
    cases h
    exact ⟨.unbounded hsel, fun hne => absurd rfl hne⟩
  next c after hsel =>
    obtain ⟨hroom, d', eliminated, rfl, hmake⟩ := makes_of_ok h
    rw [hmake.make_eq after w.totalSteps hroom]
    exact ⟨.pivoted hsel hmake, fun _ => hroom⟩

/-- **A step between positions is made wherever the counter has room for
it.** -/
theorem Dictionary.Steps.step_eq {s : Settings ω} {d d' : Dictionary τ} {source source' : γ}
    {r : StepResult τ} (h : d.Steps s source r d' source') {t : Nat}
    (ht : r.pivots ≠ [] → t + 1 < UInt64.size) :
    ∃ journal : Journal ω τ, (⟨d, source, t⟩ : Walk τ γ).step s
      = ⟨⟨d', source', t + r.pivots.length⟩, journal, .ok r⟩ := by
  cases h with
  | optimal hsel => exact ⟨[], by simp only [Walk.step, hsel]; rfl⟩
  | unbounded hsel => exact ⟨[], by simp only [Walk.step, hsel]; rfl⟩
  | @pivoted c eliminated _ _ hsel hmake =>
      refine ⟨d'.eliminationEvents c.col eliminated, ?_⟩
      simp only [Walk.step, hsel]
      exact hmake.make_eq source' t (ht (by simp [StepResult.pivots]))

/-- A dictionary and a source decide the step. -/
theorem Dictionary.Steps.unique {s : Settings ω} {d d₁ d₂ : Dictionary τ}
    {source source₁ source₂ : γ} {r₁ r₂ : StepResult τ} (h₁ : d.Steps s source r₁ d₁ source₁)
    (h₂ : d.Steps s source r₂ d₂ source₂) : r₁ = r₂ ∧ d₁ = d₂ ∧ source₁ = source₂ := by
  obtain ⟨j₁, hstep₁⟩ := h₁.step_eq (t := 0) (fun _ => by decide)
  obtain ⟨j₂, hstep₂⟩ := h₂.step_eq (t := 0) (fun _ => by decide)
  have h := hstep₁.symm.trans hstep₂
  simp only [Stepped.mk.injEq, Walk.mk.injEq, Except.ok.injEq] at h
  exact ⟨h.2.2, h.1.1, h.1.2.1⟩

theorem Walk.mem_journal_step {s : Settings ω} {w : Walk τ γ} {e : Event ω τ}
    (h : e ∈ (w.step s).journal) :
    (∃ k v row col, e = .violated k v row col) ∨ ∃ id col z, e = .eliminated id col z := by
  unfold step at h
  split at h
  · cases h
  · cases h
  · exact mem_journal_make h

/-- A step by itself tells of no pivot: its invocation does. -/
theorem Walk.pivots_step (s : Settings ω) (w : Walk τ γ) : (w.step s).journal.pivots = [] := by
  refine List.filterMap_eq_nil_iff.2 fun e he => ?_
  obtain ⟨k, v, row, col, rfl⟩ | ⟨id, col, z, rfl⟩ := mem_journal_step he
  · rfl
  · rfl

/-! ## §3. Paths. -/

namespace Dictionary

/-- **Pivots one after another**, from one position to another. -/
inductive Path (s : Settings ω) : Dictionary τ → γ → List (Choice τ) → Dictionary τ → γ → Prop where
  | nil {d : Dictionary τ} {source : γ} : Path s d source [] d source
  | cons {d d₁ d' : Dictionary τ} {source source₁ source' : γ} {c : Choice τ}
      {eliminated : Option Int} {cs : List (Choice τ)}
      (h : d.Steps s source (.pivoted c eliminated) d₁ source₁)
      (rest : Path s d₁ source₁ cs d' source') : Path s d source (c :: cs) d' source'

variable {s : Settings ω} {d d₁ d' : Dictionary τ} {source source₁ source' : γ}
  {cs cs' : List (Choice τ)}

theorem Path.trans (h : Path s d source cs d₁ source₁) (h' : Path s d₁ source₁ cs' d' source') :
    Path s d source (cs ++ cs') d' source' := by
  induction h with
  | nil => exact h'
  | cons hstep _ ih => exact .cons hstep (ih h')

end Dictionary

end DenseSimplex
