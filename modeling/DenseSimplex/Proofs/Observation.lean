/-
  DenseSimplex.Proofs.Observation
  ───────────────────────────────
  **WATCHING AN INVOCATION DOES NOT CHANGE IT.**

  A loop is told how to report: whether to log, when to call the observer,
  what to trace, and whether to share its progress.  It is also told whether
  to check every pivot.  Neither has a say in which pivots are chosen and
  made, and neither draws a coin:

      (loop.run clock d).quiet      =  loop.quiet.run never d
      (loop.run clock d).unchecked  =  loop.unchecked.run clock d,
                                       or it stopped at a check

  The first equation is about a loop that reports nothing, and holds with
  the snapshots taken out of the journal (`Loop.run_quiet`).  The second is
  about a loop that checks nothing (`Loop.run_unchecked`); a checked
  invocation that stops has made the first of the pivots that the unchecked
  one goes on to make.  So two loops that differ in these things only leave
  the same behind, unless a check stops one of them (`Loop.run_observed`).
-/
import DenseSimplex.Proofs.Reports
import DenseSimplex.Proofs.Tolerance

namespace DenseSimplex

variable {ω τ γ : Type}

/-! ## §1. Reports and checks taken away. -/

/-- The settings of a loop that reports nothing of its own. -/
def Settings.quiet (s : Settings ω) : Settings ω := { s with reportInterval := 1, verbose := false }

/-- The settings of a loop that checks no pivot. -/
def Settings.unchecked (s : Settings ω) : Settings ω := { s with checkInvariants := false }

/-- The loop that reports, traces and shares nothing. -/
def Loop.quiet (loop : Loop ω γ) : Loop ω γ :=
  { loop with settings := loop.settings.quiet, tracing := .off, shared := none }

/-- The loop that checks no pivot. -/
def Loop.unchecked (loop : Loop ω γ) : Loop ω γ :=
  { loop with settings := loop.settings.unchecked }

/-- The journal without what the observer was told. -/
def Journal.quiet (journal : Journal ω τ) : Journal ω τ :=
  journal.filter fun e => e.snapshot?.isNone

/-- **Two loops that differ in reports and checks only.** -/
structure Loop.Alike (l₁ l₂ : Loop ω γ) : Prop where
  settings : l₁.settings.unchecked.quiet = l₂.settings.unchecked.quiet
  source : l₁.source = l₂.source
  totalSteps : l₁.totalSteps = l₂.totalSteps
  invocations : l₁.invocations = l₂.invocations

/-- **Two invocations that did the same**, whatever they reported: the same
events, pivots, dictionary and result, and loops that are in the same place
again. -/
structure Ran.Coincides (r₁ r₂ : Ran ω τ γ) : Prop where
  events : r₁.journal.quiet = r₂.journal.quiet
  pivots : r₁.journal.pivots = r₂.journal.pivots
  dictionary : r₁.dictionary = r₂.dictionary
  result : r₁.result = r₂.result
  loop : r₁.loop.Alike r₂.loop

/-- A fault that a check of a pivot raises. -/
inductive Fault.FromCheck : Fault τ → Prop where
  | negativeRhs (index : Nat) (value : τ) (row col : Nat) :
      FromCheck (.negativeRhs index value row col)
  | corrupted (row col : Nat) (cause : InputError) : FromCheck (.corrupted row col cause)

theorem Loop.alike_iff {l₁ l₂ : Loop ω γ} :
    l₁.Alike l₂ ↔ l₁.unchecked.quiet = l₂.unchecked.quiet := by
  constructor
  · intro h
    unfold Loop.quiet Loop.unchecked
    simp only [h.settings, h.source, h.totalSteps, h.invocations]
  · intro h
    unfold Loop.quiet Loop.unchecked at h
    simp only [Loop.mk.injEq] at h
    exact ⟨h.1, h.2.2.1, h.2.2.2.2.1, h.2.2.2.2.2⟩

theorem Journal.quiet_append (j j' : Journal ω τ) :
    Journal.quiet (j ++ j') = Journal.quiet j ++ Journal.quiet j' :=
  List.filter_append _ _

theorem Journal.quiet_eq_self {j : Journal ω τ} (h : ∀ e ∈ j, e.snapshot? = none) :
    j.quiet = j :=
  List.filter_eq_self.2 fun e he => by rw [h e he]; rfl

/-- The pivots are not among what the observer is told. -/
theorem Journal.pivots_quiet (j : Journal ω τ) : j.quiet.pivots = j.pivots := by
  unfold quiet pivots
  rw [List.filterMap_filter]
  refine List.filterMap_congr fun e _ => ?_
  cases e <;> rfl

variable [Scalar τ] [Element ω τ] [Source γ]

/-! ## §2. Reports. -/

/-- What stays fixed during an invocation that reports nothing. -/
def Terms.quiet (terms : Terms ω) : Terms ω := ⟨terms.settings.quiet, terms.limit, fun _ => false⟩

namespace Invocation

omit [Scalar τ] [Element ω τ] [Source γ] in
/-- An invocation under way that shares nothing. -/
def quiet (i : Invocation ω τ γ) : Invocation ω τ γ := { i with shared := none }

omit [Scalar τ] [Element ω τ] [Source γ] in
/-- Concluding a step is the same without reports. -/
theorem conclude_quiet (terms : Terms ω) (i : Invocation ω τ γ) (stepped : Stepped ω τ γ) :
    conclude terms.quiet i.quiet stepped
      = { conclude terms i stepped with
          invocation := (conclude terms i stepped).invocation.quiet } := by
  unfold conclude Terms.quiet Settings.quiet quiet
  cases stepped.result with
  | error fault => rfl
  | ok r =>
      cases r with
      | optimal => rfl
      | unbounded col =>
          dsimp only
          cases stepped.walk.dictionary.rightLabel col <;> rfl
      | pivoted choice eliminated =>
          dsimp only
          split <;> rfl

/-- **A pass is the same without reports.** -/
theorem pass_quiet (terms : Terms ω) (i : Invocation ω τ γ) :
    pass terms.quiet i.quiet
      = ⟨(pass terms i).invocation.quiet, (pass terms i).journal.quiet,
          (pass terms i).verdict⟩ := by
  cases hlimit : spentLimit terms i with
  | some limit =>
      have hquiet : spentLimit terms.quiet i.quiet = some limit := hlimit
      unfold pass
      rw [hlimit, hquiet]
      rfl
  | none =>
      have hquiet : spentLimit terms.quiet i.quiet = none := hlimit
      have hconclude : conclude terms.quiet i.quiet.publish (i.quiet.walk.step terms.quiet.settings)
          = { conclude terms i.publish (i.walk.step terms.settings) with
              invocation :=
                (conclude terms i.publish (i.walk.step terms.settings)).invocation.quiet } :=
        conclude_quiet terms i.publish (i.walk.step terms.settings)
      have hreport : (report terms i).quiet = [] := by
        unfold report
        split <;> rfl
      have hjournal := Journal.quiet_eq_self (snapshot?_of_mem_conclude terms i.publish
        (i.walk.snapshot?_of_mem_step terms.settings))
      unfold pass
      rw [hlimit, hquiet]
      dsimp only
      rw [hconclude, Journal.quiet_append, hreport, hjournal]
      rfl

/-- **All passes are the same without reports.** -/
theorem passes_quiet (terms : Terms ω) (room : Nat) : ∀ i : Invocation ω τ γ,
    passes terms.quiet room i.quiet
      = ⟨(passes terms room i).invocation.quiet, (passes terms room i).journal.quiet,
          (passes terms room i).result⟩ := by
  induction room with
  | zero => intro i; rfl
  | succ room ih =>
      intro i
      have hverdict : (pass terms.quiet i.quiet).verdict = (pass terms i).verdict := by
        rw [pass_quiet]
      cases h : (pass terms i).verdict with
      | stopped fault =>
          rw [passes_of_stopped h, passes_of_stopped (hverdict.trans h), pass_quiet]
      | done status =>
          rw [passes_of_done h, passes_of_done (hverdict.trans h), pass_quiet]
      | goOn =>
          rw [passes_of_goOn h, passes_of_goOn (hverdict.trans h), pass_quiet, ih]
          dsimp only
          rw [Journal.quiet_append]

end Invocation

/-- What an invocation leaves behind, without its reports. -/
def Ran.quiet (ran : Ran ω τ γ) : Ran ω τ γ :=
  { ran with loop := ran.loop.quiet, journal := ran.journal.quiet }

/-- **AN INVOCATION IS THE SAME WITHOUT REPORTS.** -/
theorem Loop.run_quiet (loop : Loop ω γ) (clock : Nat → Bool) (d : Dictionary τ) :
    (loop.run clock d).quiet = loop.quiet.run (fun _ => false) d := by
  obtain ⟨settings, tracing, source, shared, totalSteps, invocations⟩ := loop
  have hpasses : ∀ limit source,
      Invocation.run ⟨settings.quiet, limit, fun _ => false⟩
          (⟨⟨d, source, totalSteps⟩, 0, none⟩ : Invocation ω τ γ)
        = ⟨(Invocation.run ⟨settings, limit, clock⟩
              (⟨⟨d, source, totalSteps⟩, 0, shared⟩ : Invocation ω τ γ)).invocation.quiet,
            (Invocation.run ⟨settings, limit, clock⟩
              (⟨⟨d, source, totalSteps⟩, 0, shared⟩ : Invocation ω τ γ)).journal.quiet,
            (Invocation.run ⟨settings, limit, clock⟩
              (⟨⟨d, source, totalSteps⟩, 0, shared⟩ : Invocation ω τ γ)).result⟩ := by
    intro limit source
    exact Invocation.passes_quiet ⟨settings, limit, clock⟩ _ ⟨⟨d, source, totalSteps⟩, 0, shared⟩
  have hdraw : settings.quiet.budget.draw source = settings.budget.draw source := rfl
  unfold run close Loop.quiet
  dsimp only [walk]
  rw [hdraw]
  by_cases hcount : UInt64.size ≤ invocations + 1
  · rw [if_pos hcount, if_pos hcount]
    rfl
  · rw [if_neg hcount, if_neg hcount]
    cases settings.budget.draw source with
    | error cause => rfl
    | ok drawn =>
        obtain ⟨limit, after⟩ := drawn
        dsimp only
        rw [hpasses]
        generalize Invocation.run ⟨settings, limit, clock⟩
          (⟨⟨d, after, totalSteps⟩, 0, shared⟩ : Invocation ω τ γ) = ended
        cases ended.result with
        | error fault => rfl
        | ok status =>
            have hclosing : ∀ o : Outcome ω,
                Journal.quiet (closingEvents (invocations + 1) o : Journal ω τ)
                  = closingEvents (invocations + 1) o := by
              intro o
              unfold closingEvents
              split <;> rfl
            unfold Ran.quiet
            dsimp only
            rw [Journal.quiet_append, hclosing]
            rfl

/-! ## §3. Checks. -/

/-- What stays fixed during an invocation that checks nothing. -/
def Terms.unchecked (terms : Terms ω) : Terms ω :=
  { terms with settings := terms.settings.unchecked }

namespace Walk

variable {s : Settings ω} {w : Walk τ γ}

omit [Source γ] in
/-- **Making a pivot is the same without checks**, unless a check stops
it. -/
theorem make_unchecked (s : Settings ω) (w : Walk τ γ) (c : Choice τ) :
    w.make s c = w.make s.unchecked c
      ∨ s.checkInvariants = true
        ∧ ∃ fault, (w.make s c).result = .error fault ∧ fault.FromCheck := by
  have helimination : s.unchecked.elimination τ = s.elimination τ := rfl
  have hviolation : ∀ t : Tableau τ, violation s.unchecked t = none := fun t => rfl
  have hcorruption : ∀ d : Dictionary τ, corruption s.unchecked d = none := fun d => rfl
  unfold make settle
  rw [helimination]
  cases w.dictionary.tableau.pivot (s.elimination τ) c.row c.col with
  | error fault => exact .inl rfl
  | ok pivoted =>
      obtain ⟨element, tableau⟩ := pivoted
      dsimp only
      rw [hviolation]
      cases hfound : violation s tableau with
      | some found =>
          obtain ⟨k, v⟩ := found
          exact .inr ⟨(violation_eq_some hfound).1, _, rfl, .negativeRhs k v c.row c.col⟩
      | none =>
          dsimp only
          cases ({ w.dictionary with tableau } : Dictionary τ).relabelled c.row c.col with
          | error fault => exact .inl rfl
          | ok relabelled =>
              obtain ⟨after, eliminated⟩ := relabelled
              dsimp only
              rw [hcorruption]
              cases hfound : corruption s after with
              | some cause =>
                  exact .inr ⟨(corruption_eq_some hfound).1, _, rfl, .corrupted c.row c.col cause⟩
              | none => exact .inl rfl

/-- **A step is the same without checks**, unless a check stops it. -/
theorem step_unchecked (s : Settings ω) (w : Walk τ γ) :
    w.step s = w.step s.unchecked
      ∨ s.checkInvariants = true
        ∧ ∃ fault, (w.step s).result = .error fault ∧ fault.FromCheck := by
  have hlimits : s.unchecked.limits τ = s.limits τ := rfl
  unfold step
  rw [hlimits]
  split
  · exact .inl rfl
  · exact .inl rfl
  · exact make_unchecked s _ _

end Walk

namespace Invocation

/-- **A pass is the same without checks**, unless a check stops it; then it
makes no pivot. -/
theorem pass_unchecked (terms : Terms ω) (i : Invocation ω τ γ) :
    pass terms i = pass terms.unchecked i
      ∨ terms.settings.checkInvariants = true ∧ (pass terms i).journal.pivots = []
        ∧ ∃ fault, (pass terms i).verdict = .stopped fault ∧ fault.FromCheck := by
  cases hlimit : spentLimit terms i with
  | some limit =>
      have hunchecked : spentLimit terms.unchecked i = some limit := hlimit
      unfold pass
      rw [hlimit, hunchecked]
      exact .inl rfl
  | none =>
      have hunchecked : spentLimit terms.unchecked i = none := hlimit
      rcases Walk.step_unchecked terms.settings i.walk with hstep | ⟨hon, fault, hr, hfault⟩
      · left
        unfold pass
        rw [hlimit, hunchecked, hstep]
        rfl
      · obtain ⟨hverdict, hpivots⟩ := pass_of_error hlimit hr
        exact .inr ⟨hon, hpivots, fault, hverdict, hfault⟩

/-- **All passes are the same without checks**, unless a check stops one of
them; then the pivots up to there are the first that are made without
checks. -/
theorem passes_unchecked (terms : Terms ω) (room : Nat) : ∀ i : Invocation ω τ γ,
    passes terms room i = passes terms.unchecked room i
      ∨ terms.settings.checkInvariants = true
        ∧ (passes terms room i).journal.pivots
            <+: (passes terms.unchecked room i).journal.pivots
        ∧ ∃ fault, (passes terms room i).result = .error fault ∧ fault.FromCheck := by
  induction room with
  | zero => intro i; exact .inl rfl
  | succ room ih =>
      intro i
      rcases pass_unchecked terms i with hpass | ⟨hon, hpivots, fault, hstopped, hfault⟩
      · cases hverdict : (pass terms i).verdict with
        | stopped fault =>
            rw [passes_of_stopped hverdict, passes_of_stopped (hpass ▸ hverdict), ← hpass]
            exact .inl rfl
        | done status =>
            rw [passes_of_done hverdict, passes_of_done (hpass ▸ hverdict), ← hpass]
            exact .inl rfl
        | goOn =>
            rw [passes_of_goOn hverdict, passes_of_goOn (hpass ▸ hverdict), ← hpass]
            rcases ih (pass terms i).invocation with hrest | ⟨hon, hprefix, hstopped⟩
            · rw [hrest]
              exact .inl rfl
            · refine .inr ⟨hon, ?_, hstopped⟩
              dsimp only
              rw [Journal.pivots_append, Journal.pivots_append]
              exact (List.prefix_append_right_inj _).2 hprefix
      · rw [passes_of_stopped hstopped]
        refine .inr ⟨hon, ?_, fault, rfl, hfault⟩
        dsimp only
        rw [hpivots]
        exact List.nil_prefix

end Invocation

/-- What an invocation leaves behind, its loop without checks. -/
def Ran.unchecked (ran : Ran ω τ γ) : Ran ω τ γ := { ran with loop := ran.loop.unchecked }

/-- **AN INVOCATION IS THE SAME WITHOUT CHECKS**, unless a check stops it;
then it made the first of the pivots that are made without checks. -/
theorem Loop.run_unchecked (loop : Loop ω γ) (clock : Nat → Bool) (d : Dictionary τ) :
    (loop.run clock d).unchecked = loop.unchecked.run clock d
      ∨ loop.settings.checkInvariants = true
        ∧ (loop.run clock d).journal.pivots <+: (loop.unchecked.run clock d).journal.pivots
        ∧ ∃ fault, (loop.run clock d).result = .error fault ∧ fault.FromCheck := by
  obtain ⟨settings, tracing, source, shared, totalSteps, invocations⟩ := loop
  have hdraw : settings.unchecked.budget.draw source = settings.budget.draw source := rfl
  unfold run close Loop.unchecked
  dsimp only [walk]
  rw [hdraw]
  by_cases hcount : UInt64.size ≤ invocations + 1
  · rw [if_pos hcount, if_pos hcount]
    exact .inl rfl
  · rw [if_neg hcount, if_neg hcount]
    cases settings.budget.draw source with
    | error cause => exact .inl rfl
    | ok drawn =>
        obtain ⟨limit, after⟩ := drawn
        dsimp only
        have hpasses := Invocation.passes_unchecked ⟨settings, limit, clock⟩
          (UInt64.size - totalSteps) (⟨⟨d, after, totalSteps⟩, 0, shared⟩ : Invocation ω τ γ)
        unfold Terms.unchecked at hpasses
        unfold Invocation.run
        dsimp only at hpasses ⊢
        generalize Invocation.passes ⟨settings, limit, clock⟩ (UInt64.size - totalSteps)
          (⟨⟨d, after, totalSteps⟩, 0, shared⟩ : Invocation ω τ γ) = ended at hpasses ⊢
        generalize Invocation.passes ⟨settings.unchecked, limit, clock⟩ (UInt64.size - totalSteps)
          (⟨⟨d, after, totalSteps⟩, 0, shared⟩ : Invocation ω τ γ) = ended' at hpasses ⊢
        rcases hpasses with rfl | ⟨hon, hprefix, fault, hr, hfault⟩
        · left
          cases ended.result with
          | error fault => rfl
          | ok status => rfl
        · rw [hr]
          refine .inr ⟨hon, ?_, fault, rfl, hfault⟩
          cases ended'.result with
          | error fault' => exact hprefix
          | ok status =>
              dsimp only
              rw [Journal.pivots_append, pivots_closingEvents, List.append_nil]
              exact hprefix

/-! ## §4. Two loops. -/

omit [Scalar τ] [Element ω τ] [Source γ] in
theorem Ran.Coincides.of_quiet {r₁ r₂ : Ran ω τ γ} (h : r₁.unchecked.quiet = r₂.unchecked.quiet) :
    r₁.Coincides r₂ := by
  have hevents : r₁.journal.quiet = r₂.journal.quiet := congrArg Ran.journal h
  have hdictionary := congrArg Ran.dictionary h
  have hresult := congrArg Ran.result h
  refine ⟨hevents, ?_, hdictionary, hresult, Loop.alike_iff.2 (congrArg Ran.loop h)⟩
  rw [← Journal.pivots_quiet r₁.journal, hevents, Journal.pivots_quiet]

namespace Loop

variable {l₁ l₂ : Loop ω γ}

omit [Source γ] in
/-- Alike loops that agree on checks differ in reports only. -/
theorem Alike.quiet_eq (h : l₁.Alike l₂)
    (hcheck : l₁.settings.checkInvariants = l₂.settings.checkInvariants) :
    l₁.quiet = l₂.quiet := by
  have hsettings : l₁.settings.quiet = l₂.settings.quiet :=
    calc l₁.settings.quiet
        = { l₁.settings.unchecked.quiet with
            checkInvariants := l₁.settings.checkInvariants } := rfl
      _ = { l₂.settings.unchecked.quiet with
            checkInvariants := l₂.settings.checkInvariants } := by rw [h.settings, hcheck]
      _ = l₂.settings.quiet := rfl
  unfold quiet
  rw [hsettings, h.source, h.totalSteps, h.invocations]

/-- Alike loops without checks coincide. -/
theorem Alike.unchecked_quiet (h : l₁.Alike l₂) (clock₁ clock₂ : Nat → Bool) (d : Dictionary τ) :
    (l₁.unchecked.run clock₁ d).quiet = (l₂.unchecked.run clock₂ d).quiet := by
  rw [run_quiet, run_quiet, alike_iff.1 h]

/-- **WATCHING AN INVOCATION DOES NOT CHANGE IT.**  Let two loops differ only
in whether they log, in their report interval, in what they trace, in
whether they share their progress and in whether they check their pivots,
and run them on the same dictionary, with any two clocks.

  * If both check or neither does, the invocations coincide, also where
    they stop at a fault.
  * If both end with an outcome, they coincide.
  * If the second one does not check, the first one coincides with it or
    stops at one of its checks, and then it has made the first of the
    pivots that the second one makes. -/
theorem run_observed (h : l₁.Alike l₂) (clock₁ clock₂ : Nat → Bool) (d : Dictionary τ) :
    (l₁.settings.checkInvariants = l₂.settings.checkInvariants →
        (l₁.run clock₁ d).Coincides (l₂.run clock₂ d))
      ∧ (∀ o₁ o₂, (l₁.run clock₁ d).result = .ok o₁ → (l₂.run clock₂ d).result = .ok o₂ →
          (l₁.run clock₁ d).Coincides (l₂.run clock₂ d))
      ∧ (l₂.settings.checkInvariants = false →
          (l₁.run clock₁ d).Coincides (l₂.run clock₂ d)
            ∨ ∃ fault, (l₁.run clock₁ d).result = .error fault ∧ fault.FromCheck
                ∧ (l₁.run clock₁ d).journal.pivots <+: (l₂.run clock₂ d).journal.pivots) := by
  have hsame := h.unchecked_quiet clock₁ clock₂ d
  refine ⟨fun hcheck => ?_, fun o₁ o₂ hr₁ hr₂ => ?_, fun hoff => ?_⟩
  · have hquiet : (l₁.run clock₁ d).quiet = (l₂.run clock₂ d).quiet := by
      rw [run_quiet, run_quiet, h.quiet_eq hcheck]
    exact .of_quiet (congrArg Ran.unchecked hquiet)
  · rcases l₁.run_unchecked clock₁ d with h₁ | ⟨-, -, fault, hr, -⟩
    · rcases l₂.run_unchecked clock₂ d with h₂ | ⟨-, -, fault, hr, -⟩
      · exact .of_quiet (by rw [h₁, h₂, hsame])
      · rw [hr₂] at hr
        cases hr
    · rw [hr₁] at hr
      cases hr
  · rcases l₂.run_unchecked clock₂ d with h₂ | ⟨hon, -⟩
    · rcases l₁.run_unchecked clock₁ d with h₁ | ⟨-, hprefix, fault, hr, hfault⟩
      · exact .inl (.of_quiet (by rw [h₁, h₂, hsame]))
      · refine .inr ⟨fault, hr, hfault, ?_⟩
        have hpivots : (l₁.unchecked.run clock₁ d).journal.pivots
            = (l₂.unchecked.run clock₂ d).journal.pivots := by
          rw [← Journal.pivots_quiet, ← Journal.pivots_quiet (l₂.unchecked.run clock₂ d).journal]
          exact congrArg (fun ran => Journal.pivots ran.journal) hsame
        rw [hpivots, ← h₂] at hprefix
        exact hprefix
    · rw [hoff] at hon
      cases hon

end Loop

/-- On the two equations no check fails, and the watched loop coincides
with one that neither checks nor reports.  On the row that is slightly
negative a check stops the first pivot, which the loop without checks makes
before it finds that the objective is optimal. -/
theorem Loop.run_observed_slightlyNegative :
    (Loop.watched.run (· != 1) Dictionary.twoEquations).Coincides
        (Loop.onward.unchecked.run (fun _ => false) Dictionary.twoEquations)
      ∧ (∃ fault, (Loop.exact.run (fun _ => true) Dictionary.slightlyNegative).result
            = .error fault ∧ fault.FromCheck
          ∧ (Loop.exact.run (fun _ => true) Dictionary.slightlyNegative).journal.pivots
            <+: (Loop.exact.unchecked.run (fun _ => false)
              Dictionary.slightlyNegative).journal.pivots)
      ∧ (Loop.exact.unchecked.run (fun _ => false)
          Dictionary.slightlyNegative).journal.pivots = [⟨1, 1, -1, 0, 0, true, false⟩] := by
  have hwatched : (Loop.watched.run (· != 1) Dictionary.twoEquations).result
      = .ok ⟨.optimal, 2, 0, 0, 0⟩ := by cbv
  have hbare : (Loop.onward.unchecked.run (fun _ => false) Dictionary.twoEquations).result
      = .ok ⟨.optimal, 2, 0, 0, 0⟩ := by cbv
  have hstopped : (Loop.exact.run (fun _ => true) Dictionary.slightlyNegative).result
      = .error (.negativeRhs 1 (-(1 / 2 ^ 40)) 1 1) := by cbv
  have hended : (Loop.exact.unchecked.run (fun _ => false) Dictionary.slightlyNegative).result
      = .ok ⟨.optimal, 1, 1, 0, -(1 / 2 ^ 40)⟩ := by cbv
  have halike : Loop.watched.Alike Loop.onward.unchecked := ⟨rfl, rfl, rfl, rfl⟩
  have halike' : Loop.exact.Alike Loop.exact.unchecked := ⟨rfl, rfl, rfl, rfl⟩
  obtain ⟨-, hsame, -⟩ := Loop.run_observed halike (· != 1) (fun _ => false) Dictionary.twoEquations
  obtain ⟨-, -, hcheck⟩ :=
    Loop.run_observed halike' (fun _ => true) (fun _ => false) Dictionary.slightlyNegative
  refine ⟨hsame _ _ hwatched hbare, ?_, by cbv⟩
  rcases hcheck rfl with hcoincide | hstops
  · have hresult := hcoincide.result
    rw [hstopped, hended] at hresult
    cases hresult
  · exact hstops

end DenseSimplex
