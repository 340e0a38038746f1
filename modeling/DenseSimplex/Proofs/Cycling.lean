/-
  DenseSimplex.Proofs.Cycling
  ───────────────────────────
  **WHERE THE COIN CANNOT BREAK A CYCLE.**

  A degenerate pivot that is the first candidate of a scan is taken at
  once; the coin is tossed for later candidates only.  So there are places
  from which every generator makes the same endless row of degenerate
  pivots (`Dictionary.Trap`), and no run that gets there ever ends.

  They are the only ones.  With `tails`, the source that never shows heads,
  a degenerate candidate is taken only where it is the first.  If such a
  run does not end, it is degenerate from some point on, so all its pivots
  from there on are forced, whatever the coins
  (`Dictionary.tails_ends_or_trap`).

      scan finds a pivot of gain 0 with tails   →   no coin was tossed
                                                →   found with any source

  Such a place exists: `Dictionary.whirl` returns to itself after six
  pivots, although its objective is unbounded.
-/
import DenseSimplex.Proofs.Objective
import DenseSimplex.Proofs.Resumption

namespace DenseSimplex

/-! ## §1. A coin that never shows heads. -/

/-- The source whose coins all show tails. -/
def Source.tails : Nat → UInt64 := fun _ => UInt64.ofNat (UInt64.size - 1)

open Source (tails)

theorem Source.drawCoin_tails : drawCoin tails = (false, tails) := rfl

namespace Selection

variable {limits : Limits Rat} {rhs : List Rat} {labels : List Int}

/-- No coin is tossed for the first candidate. -/
theorem stopsAt_none {γ : Type} [Source γ] (c : Choice Rat) (source : γ) :
    stopsAt none c source = (c.evictsArtificial || c.degenerate, source) := by
  unfold stopsAt
  cases c.evictsArtificial <;> cases c.degenerate <;> rfl

/-- With tails, later candidates stop a scan only if they evict an
artificial variable. -/
theorem stopsAt_tails (best c : Choice Rat) :
    stopsAt (some best) c tails = (c.evictsArtificial, tails) := by
  unfold stopsAt
  rw [Source.drawCoin_tails]
  cases c.evictsArtificial <;> cases c.degenerate <;> rfl

theorem scan_tails_snd (col : Nat) (columns : List (Column Rat)) (best : Option (Choice Rat)) :
    (scan limits rhs labels col columns best tails).2 = tails := by
  induction columns generalizing col best with
  | nil => rfl
  | cons c columns ih =>
      unfold scan
      split
      · exact ih _ _
      · split
        · rfl
        · cases best with
          | none =>
              simp only [stopsAt_none]
              split
              · rfl
              · exact ih _ _
          | some best =>
              simp only [stopsAt_tails]
              split
              · rfl
              · exact ih _ _

theorem le_gain_better (best c : Choice Rat) : best.gain ≤ (Choice.better (some best) c).gain := by
  unfold Choice.better
  dsimp only
  split
  next hlt => exact le_of_lt hlt
  next => exact le_refl _

/-- With tails, a scan that has a candidate in hand ends with one that is
as good, or that evicts an artificial variable. -/
theorem le_gain_of_scan_tails {col : Nat} {columns : List (Column Rat)} {best c : Choice Rat}
    (h : (scan limits rhs labels col columns (some best) tails).1 = .found c) :
    c.evictsArtificial = true ∨ best.gain ≤ c.gain := by
  induction columns generalizing col best with
  | nil =>
      cases h
      exact .inr (le_refl _)
  | cons column columns ih =>
      unfold scan at h
      split at h
      · exact ih h
      · split at h
        · cases h
        next b _ =>
          simp only [stopsAt_tails] at h
          split at h
          next hevicts =>
            cases h
            exact .inl hevicts
          next => exact (ih h).imp_right (le_trans (le_gain_better best _))

/-- **A pivot that gains nothing is found without a coin.**  If a scan with
tails ends with one that evicts no artificial variable, it was the first
candidate, and every scan ends with it. -/
theorem scan_eq_of_tails (heps : 0 ≤ limits.epsObjective) (htol : 0 ≤ limits.degenerateTol)
    {col : Nat} {columns : List (Column Rat)} {c : Choice Rat}
    (h : (scan limits rhs labels col columns none tails).1 = .found c)
    (hkept : c.evictsArtificial = false) (hgain : c.gain ≤ 0) {γ : Type} [Source γ] (source : γ) :
    scan limits rhs labels col columns none source = (.found c, source) := by
  induction columns generalizing col with
  | nil => cases h
  | cons column columns ih =>
      unfold scan at h ⊢
      split at h
      next hle =>
        rw [if_pos hle]
        exact ih h
      next himproves =>
        rw [if_neg himproves]
        split at h
        · cases h
        next b _ =>
          simp only [stopsAt_none] at h ⊢
          split at h
          -- the first candidate is taken
          next hstop =>
            rw [if_pos hstop]
            cases h
            rfl
          -- or it gains something, and so does what the scan ends with
          next hgo =>
            exfalso
            have hratio : limits.degenerateTol < b.ratio := by
              simp only [Choice.ofLeaving, Bool.or_eq_true, decide_eq_true_eq, not_or] at hgo
              exact not_le.1 hgo.2
            have hpos : 0 < column.objective * b.ratio :=
              mul_pos (lt_of_le_of_lt heps (not_le.1 himproves)) (lt_of_le_of_lt htol hratio)
            rcases le_gain_of_scan_tails h with hevicts | hle
            · rw [hkept] at hevicts
              cases hevicts
            · exact absurd (lt_of_lt_of_le hpos hle) (not_lt.2 hgain)

end Selection

/-! ## §2. Steps with tails. -/

namespace Dictionary

variable {s : Settings Rat} {d d' : Dictionary Rat}

theorem Steps.source_tails {r : StepResult Rat} {source : Nat → UInt64}
    (h : d.Steps s tails r d' source) : source = tails := by
  have hsource : (Selection.ofDictionary (s.limits Rat) d tails).2 = tails :=
    Selection.scan_tails_snd _ _ _
  cases h with
  | optimal hsel => rw [← hsource, hsel]
  | unbounded hsel => rw [← hsource, hsel]
  | pivoted hsel _ => rw [← hsource, hsel]

/-- **A pivot that gains nothing with tails is made with any source**, and
takes no coin from it. -/
theorem Steps.of_tails (heps : 0 ≤ s.epsObjective) (htol : 0 ≤ s.degenerateTol) {c : Choice Rat}
    {eliminated : Option Int} (h : d.Steps s tails (.pivoted c eliminated) d' tails)
    (hkept : c.evictsArtificial = false) (hgain : c.gain ≤ 0) {γ : Type} [Source γ]
    (source : γ) : d.Steps s source (.pivoted c eliminated) d' source := by
  cases h with
  | pivoted hsel hmake =>
      exact .pivoted (Selection.scan_eq_of_tails heps htol (congrArg Prod.fst hsel) hkept hgain
        source) hmake

/-- A step between positions is a move. -/
theorem Steps.moves {γ : Type} [Source γ] {source source' : γ} {r : StepResult Rat}
    (h : d.Steps s source r d' source') (hd : d.WellFormed) : d.Moves s r d' := by
  obtain ⟨journal, hstep⟩ := h.step_eq (t := 0) (fun _ => by decide)
  have hmove := (Walk.moves_of_step s ⟨d, source, 0⟩ hd (congrArg Stepped.result hstep)).1
  rw [hstep] at hmove
  exact hmove

/-- A choice says whether its pivot eliminates a variable. -/
theorem Moves.evictsArtificial_eq {c : Choice Rat} {eliminated : Option Int}
    (h : d.Moves s (.pivoted c eliminated) d') : c.evictsArtificial = eliminated.isSome := by
  cases h with
  | pivoted q hq =>
      obtain ⟨b, -, -, -, hlabel, rfl⟩ := hq.leaves
      show DenseSimplex.isArtificial b.label = _
      rw [hlabel]
      unfold Place.eliminated
      cases DenseSimplex.isArtificial q.leaving <;> rfl

end Dictionary

/-! ## §3. Traps. -/

namespace Dictionary

variable {s : Settings Rat}

/-- **A place from which no coin leads away**: from it on, every source
makes the same pivots, without a toss, all of length zero, and there is
always another one. -/
def Trap (s : Settings Rat) (d : Dictionary Rat) : Prop :=
  ∃ T : Dictionary Rat → Prop, T d ∧ ∀ d, T d → ∃ c d', T d' ∧ c.ratio = 0
    ∧ ∀ {γ : Type} [Source γ] (source : γ), d.Steps s source (.pivoted c none) d' source

/-- No run ever ends, whatever its source. -/
def NeverEnds (s : Settings Rat) (d : Dictionary Rat) : Prop :=
  ∀ {γ : Type} [Source γ] (loop : Loop Rat γ) (clock : Nat → Bool) (o : Outcome Rat),
    loop.settings = s → (loop.run clock d).result ≠ .ok o

end Dictionary

theorem Invocation.passes_of_trap {γ : Type} [Source γ] {terms : Terms Rat}
    (hlimit : terms.limit = none) (room : Nat) {i : Invocation Rat Rat γ}
    (h : i.walk.dictionary.Trap terms.settings) (status : Status) :
    (passes terms room i).result ≠ .ok status := by
  obtain ⟨T, hin, hT⟩ := h
  induction room generalizing i with
  | zero => exact fun h => by cases h
  | succ room ih =>
      obtain ⟨c, d', hin', -, hsteps⟩ := hT _ hin
      cases hr : (i.walk.step terms.settings).result with
      | error fault =>
          have hstopped := (pass_of_error (spentLimit_of_unlimited hlimit i) hr).1
          rw [passes_of_stopped hstopped]
          exact fun h => by cases h
      | ok r =>
          obtain ⟨hsteps', hroom⟩ := Walk.steps_of_ok hr
          obtain ⟨rfl, -, -⟩ := (hsteps i.walk.source).unique hsteps'
          obtain ⟨hwalk, -, -, hgo⟩ :=
            pass_of_steps (spentLimit_of_unlimited hlimit i) (hsteps i.walk.source) hroom
          have hgo : (pass terms i).verdict = .goOn := hgo
          rw [passes_of_goOn hgo]
          exact ih (by rw [hwalk]; exact hin')

/-- **No run that starts in a trap ever ends.** -/
theorem Dictionary.Trap.neverEnds {s : Settings Rat} (hbudget : s.budget = .unlimited)
    {d : Dictionary Rat} (h : d.Trap s) : d.NeverEnds s := by
  intro γ _ loop clock o hsettings ho
  subst hsettings
  by_cases hcount : loop.invocations + 1 < UInt64.size
  · obtain ⟨ended, rfl, -, -, -, hresult, -⟩ :=
      loop.run_eq_passes clock (d := d) hcount (Budget.draw_of_unlimited hbudget loop.source)
    obtain ⟨status, hstatus, -⟩ := (hresult o).1 ho
    have hlimit : (⟨loop.settings, none, clock⟩ : Terms Rat).limit = none := rfl
    exact Invocation.passes_of_trap hlimit _ h status hstatus
  · rw [loop.run_of_overflow clock hcount] at ho
    cases ho

/-! ## §4. The run with tails. -/

namespace Dictionary

variable {s : Settings Rat} {d d' : Dictionary Rat}

/-- The dictionaries of the run with tails, one step after another. -/
def tailsRun (s : Settings Rat) (d : Dictionary Rat) : Nat → Dictionary Rat
  | 0 => d
  | n + 1 => ((⟨tailsRun s d n, tails, 0⟩ : Walk Rat (Nat → UInt64)).step s).walk.dictionary

/-- **Rounding plays no part in the run with tails**: each of its steps is
made alike with `prec = 0`. -/
def Unrounded (s : Settings Rat) (d : Dictionary Rat) : Prop :=
  ∀ cs d', d.Path s tails cs d' tails → ∀ r d'', d'.Steps s tails r d'' tails →
    d'.Steps { s with prec := 0 } tails r d'' tails

theorem Steps.eq_tailsRun {n : Nat} {r : StepResult Rat}
    (h : (tailsRun s d n).Steps s tails r d' tails) : d' = tailsRun s d (n + 1) := by
  obtain ⟨journal, hstep⟩ := h.step_eq (t := 0) (fun _ => by decide)
  unfold tailsRun
  rw [hstep]

/-- A dictionary on which no check fails has a step. -/
theorem Sound.exists_steps (hs : s.Tight) (hd : d.Sound) :
    ∃ r d', d.Steps s tails r d' tails := by
  have hok : ∃ r, ((⟨d, tails, 0⟩ : Walk Rat (Nat → UInt64)).step s).result = .ok r := by
    obtain ⟨after, ⟨-, hstep⟩ | ⟨col, -, hstep⟩ | ⟨c, q, hq, hstep⟩⟩ :=
      Walk.step_cases s (⟨d, tails, 0⟩ : Walk Rat (Nat → UInt64)) hd.wellFormed
    · exact ⟨_, congrArg Stepped.result hstep⟩
    · exact ⟨_, congrArg Stepped.result hstep⟩
    · rw [hstep, Walk.make_of_sound hs ⟨d, after, 0⟩ hd hq]
      exact ⟨_, rfl⟩
  obtain ⟨r, hr⟩ := hok
  have hsteps := (Walk.steps_of_ok hr).1
  rw [hsteps.source_tails] at hsteps
  exact ⟨r, _, hsteps⟩

theorem Path.sound {γ : Type} [Source γ] {source source' : γ} {cs : List (Choice Rat)}
    (h : d.Path s source cs d' source') (hs : s.Tight) (hd : d.Sound) : d'.Sound := by
  induction h with
  | nil => exact hd
  | cons hsteps _ ih => exact ih ((hsteps.moves hd.wellFormed).sound hs hd)

/-- As long as the run with tails makes pivots, it is a path. -/
theorem path_tailsRun {n : Nat} (h : ∀ m < n, ∃ c eliminated,
      (tailsRun s d m).Steps s tails (.pivoted c eliminated) (tailsRun s d (m + 1)) tails) :
    ∃ cs, cs.length = n ∧ d.Path s tails cs (tailsRun s d n) tails := by
  induction n with
  | zero => exact ⟨[], rfl, .nil⟩
  | succ n ih =>
      obtain ⟨cs, hlength, hpath⟩ := ih fun m hm => h m (by omega)
      obtain ⟨c, eliminated, hsteps⟩ := h n (by omega)
      refine ⟨cs ++ [c], ?_, hpath.trans (.cons hsteps .nil)⟩
      rw [List.length_append, hlength]
      rfl

/-- **A run with tails that never ends runs into a trap.** -/
theorem exists_trap_of_tailsRun (hs : s.Tight) (heps : 0 ≤ s.epsObjective)
    (htol : 0 ≤ s.degenerateTol) (hd : d.Sound) (hexact : d.Unrounded s)
    (h : ∀ n, ∃ c eliminated,
      (tailsRun s d n).Steps s tails (.pivoted c eliminated) (tailsRun s d (n + 1)) tails) :
    ∃ cs d', d.Path s tails cs d' tails ∧ d'.Trap s := by
  choose c eliminated hsteps using h
  have hpath : ∀ n, ∃ cs, d.Path s tails cs (tailsRun s d n) tails := by
    intro n
    obtain ⟨cs, -, hpath⟩ := path_tailsRun (n := n) fun m _ => ⟨c m, eliminated m, hsteps m⟩
    exact ⟨cs, hpath⟩
  have hmoves : ∀ n, (tailsRun s d n).Moves { s with prec := 0 }
      (.pivoted (c n) (eliminated n)) (tailsRun s d (n + 1)) := by
    intro n
    obtain ⟨cs, hpath⟩ := hpath n
    exact (hexact cs _ hpath _ _ (hsteps n)).moves (hpath.sound hs hd).wellFormed
  have hIsExact : ({ s with prec := 0 } : Settings Rat).IsExact := ⟨rfl, hs.pivotTol, heps⟩
  obtain ⟨N, hN⟩ := exists_forall_degenerate hIsExact hd hmoves
  obtain ⟨cs, hpath⟩ := hpath N
  refine ⟨cs, tailsRun s d N, hpath, fun d' => ∃ n, N ≤ n ∧ d' = tailsRun s d n,
    ⟨N, le_refl N, rfl⟩, ?_⟩
  rintro - ⟨n, hn, rfl⟩
  obtain ⟨hgain, hratio, hnone⟩ := hN n hn
  have hstep := hsteps n
  have hkept := (hmoves n).evictsArtificial_eq
  rw [hnone] at hstep hkept
  refine ⟨c n, tailsRun s d (n + 1), ⟨n + 1, by omega, rfl⟩, hratio, fun source => ?_⟩
  exact hstep.of_tails heps htol hkept (le_of_eq hgain) source

/-- **A run with tails that ends is a path** to where no pivot is
possible. -/
theorem exists_ends_of_tailsRun (hs : s.Tight) (hd : d.Sound)
    (h : ∃ n, ¬ ∃ c eliminated,
      (tailsRun s d n).Steps s tails (.pivoted c eliminated) (tailsRun s d (n + 1)) tails) :
    ∃ cs d', d.Path s tails cs d' tails
      ∧ ∃ status d'' source, Status.Ends s d' tails d'' source status
        ∧ status.isResumable = false := by
  classical
  have hbefore : ∀ m < Nat.find h, ∃ c eliminated,
      (tailsRun s d m).Steps s tails (.pivoted c eliminated) (tailsRun s d (m + 1)) tails :=
    fun m hm => not_not.1 (Nat.find_min h hm)
  obtain ⟨cs, -, hpath⟩ := path_tailsRun hbefore
  refine ⟨cs, _, hpath, ?_⟩
  have hwf := hpath.sound hs hd
  obtain ⟨r, d', hsteps⟩ := hwf.exists_steps hs
  cases r with
  | optimal => exact ⟨.optimal, d', tails, hsteps, rfl⟩
  | unbounded col =>
      have hmove := hsteps.moves hwf.wellFormed
      obtain ⟨id, hid⟩ := hmove.unbounded_isUnbounded.exists_rightLabel
        (hmove.wellFormed hwf.wellFormed)
      exact ⟨.unbounded, d', tails, ⟨col, id, hsteps, hid⟩, rfl⟩
  | pivoted c eliminated =>
      refine absurd ⟨c, eliminated, ?_⟩ (Nat.find_spec h)
      rw [← hsteps.eq_tailsRun]
      exact hsteps

/-- Every run with tails ends within a number of steps, as far as its
counters have room. -/
def TailsEndWithin (s : Settings Rat) (d : Dictionary Rat) (n : Nat) : Prop :=
  ∀ (loop : Loop Rat (Nat → UInt64)) (clock : Nat → Bool), loop.settings = s →
    loop.source = tails → loop.totalSteps + n < UInt64.size → loop.invocations + 1 < UInt64.size →
    ∃ o, (loop.run clock d).result = .ok o ∧ o.status ≠ .budgetExhausted ∧ o.steps ≤ n

/-- **THE COIN BREAKS EVERY CYCLE BUT THOSE WHERE IT IS NOT TOSSED.**  Take
a valid dictionary without negative right-hand sides, an unlimited budget,
and thresholds such that rounding plays no part.  Either the run whose
coins all show tails ends, after a number of steps that the dictionary
decides; or it gets to a place from which all pivots are degenerate and
made without a toss, so that no run ever ends, whatever its coins. -/
theorem tails_ends_or_trap (hs : s.Tight) (heps : 0 ≤ s.epsObjective) (htol : 0 ≤ s.degenerateTol)
    (hbudget : s.budget = .unlimited) (hd : d.validate = .ok ()) (hf : d.Feasible)
    (hexact : d.Unrounded s) :
    (∃ n, d.TailsEndWithin s n)
      ∨ ∃ cs d', d.Path s tails cs d' tails ∧ d'.Trap s ∧ d'.NeverEnds s := by
  have hsound : d.Sound := ⟨validate_rat_iff.1 hd, hf⟩
  by_cases hforever : ∀ n, ∃ c eliminated,
      (tailsRun s d n).Steps s tails (.pivoted c eliminated) (tailsRun s d (n + 1)) tails
  · right
    obtain ⟨cs, d', hpath, htrap⟩ := exists_trap_of_tailsRun hs heps htol hsound hexact hforever
    exact ⟨cs, d', hpath, htrap, htrap.neverEnds hbudget⟩
  · left
    obtain ⟨cs, d', hpath, status, d'', source, hends, hlast⟩ :=
      exists_ends_of_tailsRun hs hsound (not_forall.1 hforever)
    refine ⟨cs.length, fun loop clock hsettings hsource hcounter hcount => ?_⟩
    subst hsettings
    rw [← hsource] at hpath hends
    exact loop.run_le_of_path clock hbudget hpath hends hlast hcounter hcount

/-! ## §5. A trap. -/

/-- The three tableaux of a degenerate cycle. -/
def whirlTableau : Fin 3 → Tableau Rat
  | 0 => ⟨⟨0, [0, 0, 0]⟩, [⟨1, [1, -1, -1]⟩, ⟨-3, [-2, 4, 3]⟩, ⟨-1, [-1, 4, 2]⟩], by decide⟩
  | 1 => ⟨⟨0, [0, 0, 0]⟩, [⟨-1, [-1, -1, 1]⟩, ⟨1, [2, 4, -1]⟩, ⟨3, [3, 4, -2]⟩], by decide⟩
  | 2 => ⟨⟨0, [0, 0, 0]⟩, [⟨0, [1, 3, 1]⟩, ⟨-1, [-2, -4, -1]⟩, ⟨1, [-1, -4, -2]⟩], by decide⟩

/-- The six dictionaries of the cycle.  The tableau is the same again after
three pivots, the labels after six. -/
def whirl : Fin 6 → Dictionary Rat
  | 0 => ⟨whirlTableau 0, [4, 5, 6], [1, 2, 3], 0⟩
  | 1 => ⟨whirlTableau 1, [4, 1, 6], [5, 2, 3], 0⟩
  | 2 => ⟨whirlTableau 2, [4, 1, 2], [5, 6, 3], 0⟩
  | 3 => ⟨whirlTableau 0, [3, 1, 2], [5, 6, 4], 0⟩
  | 4 => ⟨whirlTableau 1, [3, 5, 2], [1, 6, 4], 0⟩
  | 5 => ⟨whirlTableau 2, [3, 5, 6], [1, 2, 4], 0⟩

/-- The pivot from each dictionary of the cycle to the next. -/
def whirlChoice : Fin 6 → Choice Rat
  | 0 | 3 => ⟨2, 1, -1, 0, 0, true, false⟩
  | 1 | 4 => ⟨3, 2, -1, 0, 0, true, false⟩
  | 2 | 5 => ⟨1, 3, -1, 0, 0, true, false⟩

end Dictionary

/-- The default settings over the rationals, with an unlimited budget. -/
def Settings.endless : Settings Rat := { Settings.standard Rat {} with budget := .unlimited }

theorem Settings.endless_thresholds :
    Settings.endless.Tight ∧ 0 ≤ Settings.endless.epsObjective
      ∧ 0 ≤ Settings.endless.degenerateTol := by
  refine ⟨⟨rfl, ?_⟩, ?_, le_refl 0⟩
  · show (0 : Rat) ≤ 1e-12
    norm_num
  · show (0 : Rat) ≤ 1e-14
    norm_num

namespace Dictionary

/-- A step that is known, result and dictionary. -/
theorem Steps.of_step_tails {s : Settings Rat} {d d' : Dictionary Rat} {r : StepResult Rat}
    (hr : ((⟨d, tails, 0⟩ : Walk Rat (Nat → UInt64)).step s).result = .ok r)
    (hd : ((⟨d, tails, 0⟩ : Walk Rat (Nat → UInt64)).step s).walk.dictionary = d') :
    d.Steps s tails r d' tails := by
  have hsteps := (Walk.steps_of_ok hr).1
  rw [hsteps.source_tails, hd] at hsteps
  exact hsteps

/-- **The cycle is made by the default settings**, and alike without
rounding. -/
theorem whirl_steps {s : Settings Rat}
    (hs : s = Settings.endless ∨ s = { Settings.endless with prec := 0 }) (i : Fin 6) :
    (whirl i).Steps s tails (.pivoted (whirlChoice i) none) (whirl (i + 1)) tails := by
  rcases hs with rfl | rfl
  all_goals
    exact match i with
      | 0 => .of_step_tails (by cbv) (by cbv)
      | 1 => .of_step_tails (by cbv) (by cbv)
      | 2 => .of_step_tails (by cbv) (by cbv)
      | 3 => .of_step_tails (by cbv) (by cbv)
      | 4 => .of_step_tails (by cbv) (by cbv)
      | 5 => .of_step_tails (by cbv) (by cbv)

theorem whirl_zero (i : Fin 6) :
    (whirlChoice i).gain = 0 ∧ (whirlChoice i).ratio = 0
      ∧ (whirlChoice i).evictsArtificial = false := by
  fin_cases i <;> exact ⟨rfl, rfl, rfl⟩

/-- **The cycle is a trap**, for the default thresholds. -/
theorem trap_whirl (i : Fin 6) : (whirl i).Trap Settings.endless := by
  refine ⟨fun d => ∃ i, d = whirl i, ⟨i, rfl⟩, ?_⟩
  rintro - ⟨i, rfl⟩
  obtain ⟨-, heps, htol⟩ := Settings.endless_thresholds
  obtain ⟨hgain, hratio, hkept⟩ := whirl_zero i
  refine ⟨whirlChoice i, whirl (i + 1), ⟨i + 1, rfl⟩, hratio, fun source => ?_⟩
  exact (whirl_steps (.inl rfl) i).of_tails heps htol hkept (le_of_eq hgain) source

theorem path_whirl {d d' : Dictionary Rat} {source source' : Nat → UInt64}
    {cs : List (Choice Rat)} (h : d.Path Settings.endless source cs d' source')
    (hsource : source = tails) (hd : ∃ i, d = whirl i) : ∃ i, d' = whirl i := by
  induction h with
  | nil => exact hd
  | cons hsteps _ ih =>
      obtain ⟨i, rfl⟩ := hd
      subst hsource
      obtain ⟨-, rfl, rfl⟩ := (whirl_steps (.inl rfl) i).unique hsteps
      exact ih rfl ⟨i + 1, rfl⟩

/-- Its numbers are whole, so rounding plays no part. -/
theorem unrounded_whirl (i : Fin 6) : (whirl i).Unrounded Settings.endless := by
  intro cs d hpath r d' hsteps
  obtain ⟨j, rfl⟩ := path_whirl hpath rfl ⟨i, rfl⟩
  obtain ⟨rfl, rfl, -⟩ := (whirl_steps (.inl rfl) j).unique hsteps
  exact whirl_steps (.inr rfl) j

/-- At the cycle the run with tails has the choice of the two, with the
default thresholds. -/
theorem tails_ends_or_trap_whirl :
    (∃ n, (whirl 0).TailsEndWithin Settings.endless n)
      ∨ ∃ cs d', (whirl 0).Path Settings.endless tails cs d' tails ∧ d'.Trap Settings.endless
        ∧ d'.NeverEnds Settings.endless := by
  obtain ⟨hs, heps, htol⟩ := Settings.endless_thresholds
  have hf : (whirl 0).Feasible := by
    show ∀ v ∈ [(0 : Rat), 0, 0], 0 ≤ v
    norm_num
  exact tails_ends_or_trap hs heps htol rfl (by rfl) hf (unrounded_whirl 0)

/-- The ray `x₁ = 2 t`, `x₃ = t`. -/
def whirlRay (t : Rat) (id : Int) : Rat := if id = 1 then 2 * t else if id = 3 then t else 0

theorem rowValue_whirlRay (t : Rat) (row : Nat) :
    (whirl 0).rowValue (whirlRay t) row
      = (⟨0, [0, 0, 0]⟩ : Column Rat).coeff row
        + ((⟨1, [1, -1, -1]⟩ : Column Rat).coeff row * (2 * t)
          + (⟨-1, [-1, 4, 2]⟩ : Column Rat).coeff row * t) := by
  simp [rowValue, termSum, terms, whirl, whirlTableau, whirlRay]

/-- Along the ray the objective grows for ever, and no variable becomes
negative. -/
theorem exists_admissible_whirl (bound : Rat) :
    ∃ x z, bound < z ∧ (whirl 0).Admissible [] x z := by
  have ht : 0 < |bound| + 1 := by positivity
  have hbound : bound < |bound| + 1 := by linarith [le_abs_self bound]
  generalize |bound| + 1 = t at ht hbound
  have hrows : ∀ k, 0 ≤ (whirl 0).rowValue (whirlRay t) (k + 1) := by
    intro k
    rw [rowValue_whirlRay]
    match k with
    | 0 =>
        show 0 ≤ (0 : Rat) + (1 * (2 * t) + -1 * t)
        linarith
    | 1 =>
        show 0 ≤ (0 : Rat) + (-1 * (2 * t) + 4 * t)
        linarith
    | 2 =>
        show 0 ≤ (0 : Rat) + (-1 * (2 * t) + 2 * t)
        linarith
    | k + 3 =>
        rw [Column.coeff_of_height_le, Column.coeff_of_height_le, Column.coeff_of_height_le]
        · linarith
        all_goals exact Nat.le_add_left 3 k
  have hfree : ∀ id ∈ (whirl 0).right, 0 ≤ whirlRay t id := by
    intro id _
    unfold whirlRay
    split
    · linarith
    · split <;> linarith
  refine ⟨_, _, ?_, admissible_completion (validate_rat_iff.1 (by rfl)) (by simp) hfree hrows⟩
  rw [rowValue_whirlRay]
  show bound < (0 : Rat) + (1 * (2 * t) + -1 * t)
  linarith

/-- **A cycle that no coin breaks**: a valid dictionary without negative
right-hand sides, whose objective is unbounded, on which no run with the
default thresholds ever ends. -/
theorem whirl_neverEnds :
    (whirl 0).validate = .ok () ∧ (whirl 0).Feasible
      ∧ (∀ bound : Rat, ∃ x z, bound < z ∧ (whirl 0).Admissible [] x z)
      ∧ (whirl 0).NeverEnds Settings.endless := by
  refine ⟨by rfl, ?_, exists_admissible_whirl, (trap_whirl 0).neverEnds rfl⟩
  show ∀ v ∈ [(0 : Rat), 0, 0], 0 ≤ v
  norm_num

end Dictionary

end DenseSimplex
