/-
  DenseSimplex.Proofs.ColumnScan
  ──────────────────────────────
  **WHICH COLUMN ENTERS.**

  The scan for an entering column keeps a best candidate in hand, leaves
  early in three ways, and draws from its source as it goes.  Seen as a
  whole it follows a rule that mentions no candidate in hand:

      stop column   =  the first improving column that has no bounding row,
                       or evicts an artificial variable, or is degenerate
                       and the first improving one or wins its coin
                                                           `Stops`
      answer        =  what stands at the stop column, if there is one;
                       else the largest gain of all improving columns, the
                       first of equals; else that none improves
                                                           `Selects`

  A coin belongs to each degenerate column that evicts nothing and is not
  the first improving one (`Tosses`), in the order of the columns.  So the
  coin of a column is numbered by the tosses before it (`tosses`), and the
  source is left behind the tosses of the columns that were scanned.

  Wherever the comparisons of the scalar are those of a total order, a
  dictionary and a source have exactly the answer of the rule
  (`Dictionary.selects_iff`).  The invariant is about the columns scanned
  so far (`Leads`): none of them stops the scan, and the candidate in hand
  is the best of them.
-/
import Mathlib.Data.Nat.Count
import DenseSimplex.Proofs.Exact

namespace DenseSimplex

/-- The two comparisons of a scalar are those of one total order. -/
structure Scalar.TotallyOrdered (α : Type) [Scalar α] : Prop where
  total : ∀ a b : α, a ≤ b ∨ b ≤ a
  trans : ∀ {a b c : α}, a ≤ b → b ≤ c → a ≤ c
  lt_iff : ∀ {a b : α}, a < b ↔ ¬ b ≤ a

namespace Scalar.TotallyOrdered

variable {α : Type} [Scalar α] {a b c : α}

theorem refl (h : TotallyOrdered α) (a : α) : a ≤ a := (h.total a a).elim id id

theorem le_of_lt (h : TotallyOrdered α) (hlt : a < b) : a ≤ b :=
  (h.total a b).resolve_right (h.lt_iff.1 hlt)

theorem le_of_not_lt (h : TotallyOrdered α) (hlt : ¬ a < b) : b ≤ a := by
  rwa [h.lt_iff, not_not] at hlt

theorem lt_of_le_of_lt (h : TotallyOrdered α) (hle : a ≤ b) (hlt : b < c) : a < c :=
  h.lt_iff.2 fun hca => h.lt_iff.1 hlt (h.trans hca hle)

end Scalar.TotallyOrdered

theorem totallyOrdered_rat : Scalar.TotallyOrdered Rat where
  total := le_total
  trans := le_trans
  lt_iff := not_le.symm

/-! ## §1. The coins of a source. -/

namespace Source

variable {γ : Type} [Source γ]

/-- The source that is left behind some coins. -/
def afterCoins (source : γ) : Nat → γ
  | 0 => source
  | n + 1 => (drawCoin (afterCoins source n)).2

/-- The coins of a source, in the order in which they are tossed. -/
def coin (source : γ) (n : Nat) : Bool := (drawCoin (afterCoins source n)).1

theorem drawCoin_afterCoins (source : γ) (n : Nat) :
    drawCoin (afterCoins source n) = (coin source n, afterCoins source (n + 1)) := rfl

end Source

/-! ## §2. The rule. -/

namespace Dictionary

section

variable {α γ : Type} [Scalar α] [Source γ] (limits : Limits α) (d : Dictionary α) (source : γ)

/-- A column improves the objective.  Columns are counted from 0 here. -/
def Improves (j : Nat) : Prop := ∃ c ∈ d.tableau.columns[j]?, limits.epsObjective < c.objective

/-- The pivot on a column with its leaving row, if some row bounds the
step. -/
def candidate (j : Nat) : Option (Choice α) :=
  d.tableau.columns[j]?.bind fun c =>
    (leavingRow limits c.entries d.tableau.rhs.entries d.left).map
      (Choice.ofLeaving limits (j + 1) c.objective)

/-- **A column has a coin**: it improves the objective but is not the first
one that does, its step is degenerate, and it evicts no artificial
variable. -/
def Tosses (j : Nat) : Prop :=
  d.Improves limits j ∧ (∃ i < j, d.Improves limits i)
    ∧ ∃ c ∈ d.candidate limits j, c.degenerate = true ∧ c.evictsArtificial = false

instance : DecidablePred (d.Improves limits) := fun j =>
  inferInstanceAs (Decidable (∃ c ∈ d.tableau.columns[j]?, limits.epsObjective < c.objective))

instance : DecidablePred (d.Tosses limits) := fun j =>
  inferInstanceAs (Decidable (d.Improves limits j ∧ (∃ i < j, d.Improves limits i)
    ∧ ∃ c ∈ d.candidate limits j, c.degenerate = true ∧ c.evictsArtificial = false))

/-- The number of coins of the columns before one. -/
def tosses (j : Nat) : Nat := Nat.count (d.Tosses limits) j

/-- **The scan stops at a column.** -/
inductive Stops (j : Nat) : Prop where
  | unbounded (h : d.Improves limits j) (hnone : d.candidate limits j = none)
  | evicts {c : Choice α} (h : d.Improves limits j) (hc : d.candidate limits j = some c)
      (hevicts : c.evictsArtificial = true)
  | first {c : Choice α} (h : IsLeast {i | d.Improves limits i} j)
      (hc : d.candidate limits j = some c) (hdegenerate : c.degenerate = true)
  | heads (h : d.Tosses limits j) (hcoin : Source.coin source (d.tosses limits j) = true)

/-- **The largest gain** of the improving columns before `k`, the first of
equals. -/
structure LargestGain (k j : Nat) (c : Choice α) : Prop where
  lt : j < k
  improves : d.Improves limits j
  candidate_eq : d.candidate limits j = some c
  gain_le : ∀ i < k, d.Improves limits i → ∀ c' ∈ d.candidate limits i, c'.gain ≤ c.gain
  gain_lt : ∀ i < j, d.Improves limits i → ∀ c' ∈ d.candidate limits i, c'.gain < c.gain

/-- **The answer of a scan**, and the source it leaves behind. -/
inductive Selects : Selection α × γ → Prop where
  | unbounded {j : Nat} (h : IsLeast {i | d.Stops limits source i} j)
      (hnone : d.candidate limits j = none) :
      Selects (.unbounded (j + 1), Source.afterCoins source (d.tosses limits (j + 1)))
  | stopped {j : Nat} {c : Choice α} (h : IsLeast {i | d.Stops limits source i} j)
      (hc : d.candidate limits j = some c) :
      Selects (.found c, Source.afterCoins source (d.tosses limits (j + 1)))
  | best {j : Nat} {c : Choice α} (h : ∀ i, ¬ d.Stops limits source i)
      (hc : d.LargestGain limits d.tableau.width j c) :
      Selects (.found c, Source.afterCoins source (d.tosses limits d.tableau.width))
  | optimal (h : ∀ i, ¬ d.Improves limits i) : Selects (.noPivot, source)

end

variable {α γ : Type} [Scalar α] [Source γ] {limits : Limits α} {d : Dictionary α} {source : γ}
  {j k : Nat} {c : Choice α}

theorem improves_iff {column : Column α} (hk : d.tableau.columns[k]? = some column) :
    d.Improves limits k ↔ limits.epsObjective < column.objective := by
  unfold Improves
  rw [hk]
  exact ⟨fun ⟨_, hc, h⟩ => Option.mem_some_iff.1 hc ▸ h, fun h => ⟨column, rfl, h⟩⟩

theorem candidate_eq {column : Column α} (hk : d.tableau.columns[k]? = some column) :
    d.candidate limits k = (leavingRow limits column.entries d.tableau.rhs.entries d.left).map
      (Choice.ofLeaving limits (k + 1) column.objective) := by
  unfold candidate
  rw [hk]
  rfl

theorem Improves.lt_width (h : d.Improves limits j) : j < d.tableau.width := by
  obtain ⟨_, hc, -⟩ := h
  exact (List.getElem?_eq_some_iff.1 hc).1

theorem Stops.improves (h : d.Stops limits source j) : d.Improves limits j := by
  cases h with
  | unbounded h _ => exact h
  | evicts h _ _ => exact h
  | first h _ _ => exact h.1
  | heads h _ => exact h.1

theorem tosses_succ (h : d.Tosses limits k) : d.tosses limits (k + 1) = d.tosses limits k + 1 :=
  Nat.count_succ_eq_succ_count_iff.2 h

theorem tosses_succ_of_not (h : ¬ d.Tosses limits k) :
    d.tosses limits (k + 1) = d.tosses limits k :=
  Nat.count_succ_eq_count_iff.2 h

/-- Where no column improves, no coin is tossed. -/
theorem tosses_eq_zero (h : ∀ i, ¬ d.Improves limits i) : d.tosses limits k = 0 :=
  Nat.count_of_forall_not fun i _ htosses => h i htosses.1

/-- **There is one largest gain.** -/
theorem LargestGain.unique (hord : Scalar.TotallyOrdered α) {j' : Nat} {c' : Choice α}
    (h : d.LargestGain limits k j c) (h' : d.LargestGain limits k j' c') : c = c' := by
  -- of two different columns, the later one would gain more than the earlier one
  have hle : ∀ {i i' : Nat} {a a' : Choice α}, d.LargestGain limits k i a →
      d.LargestGain limits k i' a' → ¬ i < i' := by
    intro i i' a a' ha ha' hlt
    have hless : a.gain < a'.gain := ha'.gain_lt i hlt ha.improves a ha.candidate_eq
    exact hord.lt_iff.1 hless (ha.gain_le i' ha'.lt ha'.improves a' ha'.candidate_eq)
  obtain rfl : j = j' := le_antisymm (not_lt.1 (hle h' h)) (not_lt.1 (hle h h'))
  exact Option.some.inj (h.candidate_eq.symm.trans h'.candidate_eq)

/-- **The rule has one answer.** -/
theorem Selects.unique (hord : Scalar.TotallyOrdered α) {a a' : Selection α × γ}
    (h : d.Selects limits source a) (h' : d.Selects limits source a') : a = a' := by
  cases h with
  | unbounded h hnone =>
      cases h' with
      | unbounded h' _ => rw [h.unique h']
      | stopped h' hc =>
          rw [h.unique h', hc] at hnone
          cases hnone
      | best h' _ => exact absurd h.1 (h' _)
      | optimal h' => exact absurd h.1.improves (h' _)
  | stopped h hc =>
      cases h' with
      | unbounded h' hnone =>
          rw [h'.unique h, hc] at hnone
          cases hnone
      | stopped h' hc' =>
          obtain rfl := h.unique h'
          rw [Option.some.inj (hc.symm.trans hc')]
      | best h' _ => exact absurd h.1 (h' _)
      | optimal h' => exact absurd h.1.improves (h' _)
  | best h hc =>
      cases h' with
      | unbounded h' _ => exact absurd h'.1 (h _)
      | stopped h' _ => exact absurd h'.1 (h _)
      | best _ hc' => rw [hc.unique hord hc']
      | optimal h' => exact absurd hc.improves (h' _)
  | optimal h =>
      cases h' with
      | unbounded h' _ => exact absurd h'.1.improves (h _)
      | stopped h' _ => exact absurd h'.1.improves (h _)
      | best _ hc => exact absurd hc.improves (h _)
      | optimal _ => rfl

/-! ## §3. The scan. -/

/-- What the candidate in hand is, once the columns before `k` have been
scanned: the best of these columns, if one of them improves. -/
def Leads (limits : Limits α) (d : Dictionary α) (k : Nat) : Option (Choice α) → Prop
  | none => ∀ i < k, ¬ d.Improves limits i
  | some c => ∃ j, d.LargestGain limits k j c

/-- A column that does not improve leaves the candidate in hand. -/
theorem Leads.skip {best : Option (Choice α)} (h : d.Leads limits k best)
    (hk : ¬ d.Improves limits k) : d.Leads limits (k + 1) best := by
  have hback : ∀ i < k + 1, d.Improves limits i → i < k := by
    intro i hi himproves
    rcases Nat.lt_succ_iff_lt_or_eq.1 hi with hlt | rfl
    · exact hlt
    · exact absurd himproves hk
  cases best with
  | none => exact fun i hi himproves => h i (hback i hi himproves) himproves
  | some c =>
      obtain ⟨j, hj⟩ := h
      exact ⟨j, Nat.lt_succ_of_lt hj.lt, hj.improves, hj.candidate_eq,
        fun i hi himproves => hj.gain_le i (hback i hi himproves) himproves, hj.gain_lt⟩

/-- A bound on the gains before a column, and on its own gain. -/
theorem gain_le_succ (hc : d.candidate limits k = some c) {gain : α}
    (h : ∀ i < k, d.Improves limits i → ∀ c' ∈ d.candidate limits i, c'.gain ≤ gain)
    (hle : c.gain ≤ gain) :
    ∀ i < k + 1, d.Improves limits i → ∀ c' ∈ d.candidate limits i, c'.gain ≤ gain := by
  intro i hi himproves c' hc'
  rcases Nat.lt_succ_iff_lt_or_eq.1 hi with hlt | rfl
  · exact h i hlt himproves c' hc'
  · rwa [Option.some.inj (hc'.symm.trans hc)]

/-- **The candidate of an improving column is weighed** against the one in
hand. -/
theorem Leads.weigh (hord : Scalar.TotallyOrdered α) {best : Option (Choice α)}
    (h : d.Leads limits k best) (hk : d.Improves limits k) (hc : d.candidate limits k = some c) :
    d.Leads limits (k + 1) (some (Choice.better best c)) := by
  cases best with
  | none =>
      -- the first candidate of all
      exact ⟨k, Nat.lt_succ_self k, hk, hc,
        gain_le_succ hc (fun i hi himproves => absurd himproves (h i hi)) (hord.refl c.gain),
        fun i hi himproves => absurd himproves (h i hi)⟩
  | some a =>
      obtain ⟨j, hj⟩ := h
      unfold Choice.better
      dsimp only
      split
      -- a larger gain than any before, or one that is not larger
      next hlt =>
        have hle : ∀ i < k, d.Improves limits i → ∀ c' ∈ d.candidate limits i,
            c'.gain ≤ c.gain := fun i hi himproves c' hc' =>
          hord.trans (hj.gain_le i hi himproves c' hc') (hord.le_of_lt hlt)
        refine ⟨k, Nat.lt_succ_self k, hk, hc, gain_le_succ hc hle (hord.refl c.gain), ?_⟩
        intro i hi himproves c' hc'
        exact hord.lt_of_le_of_lt (hj.gain_le i hi himproves c' hc') hlt
      next hge =>
        exact ⟨j, Nat.lt_succ_of_lt hj.lt, hj.improves, hj.candidate_eq,
          gain_le_succ hc hj.gain_le (hord.le_of_not_lt hge), hj.gain_lt⟩

/-- **Whether the scan stops at a candidate**, and what it draws to find
out. -/
theorem stopsAt_candidate (source : γ) {best : Option (Choice α)} (h : d.Leads limits k best)
    (hk : d.Improves limits k) (hc : d.candidate limits k = some c) :
    ∃ stop, Selection.stopsAt best c (Source.afterCoins source (d.tosses limits k))
        = (stop, Source.afterCoins source (d.tosses limits (k + 1)))
      ∧ (stop = true ↔ d.Stops limits source k) := by
  have hmem : ∀ {c'}, c' ∈ d.candidate limits k → c' = c := fun hc' =>
    Option.some.inj (hc'.symm.trans hc)
  unfold Selection.stopsAt
  split
  next hevicts =>
    have hquiet : ¬ d.Tosses limits k := by
      rintro ⟨-, -, c', hc', -, hkept⟩
      rw [hmem hc', hevicts] at hkept
      cases hkept
    rw [tosses_succ_of_not hquiet]
    exact ⟨true, rfl, fun _ => .evicts hk hc hevicts, fun _ => rfl⟩
  next hkept =>
    split
    next hdegenerate =>
      cases best with
      | none =>
          have hquiet : ¬ d.Tosses limits k := by
            rintro ⟨-, ⟨i, hi, himproves⟩, -⟩
            exact h i hi himproves
          have hleast : IsLeast {i | d.Improves limits i} k :=
            ⟨hk, fun i himproves => not_lt.1 fun hi => h i hi himproves⟩
          rw [tosses_succ_of_not hquiet]
          exact ⟨true, rfl, fun _ => .first hleast hc hdegenerate, fun _ => rfl⟩
      | some a =>
          obtain ⟨j, hj⟩ := h
          have htosses : d.Tosses limits k :=
            ⟨hk, ⟨j, hj.lt, hj.improves⟩, c, hc, hdegenerate, Bool.eq_false_iff.2 hkept⟩
          rw [tosses_succ htosses]
          refine ⟨_, Source.drawCoin_afterCoins .., .heads htosses, fun hstops => ?_⟩
          cases hstops with
          | unbounded _ hnone =>
              rw [hc] at hnone
              cases hnone
          | evicts _ hc' hevicts => exact absurd (hmem hc' ▸ hevicts) hkept
          | first hleast _ _ => exact absurd hj.lt (not_lt.2 (hleast.2 hj.improves))
          | heads _ hcoin => exact hcoin
    next hlong =>
      have hquiet : ¬ d.Tosses limits k := by
        rintro ⟨-, -, c', hc', hdegenerate, -⟩
        exact hlong (hmem hc' ▸ hdegenerate)
      rw [tosses_succ_of_not hquiet]
      refine ⟨false, rfl, fun h => (by cases h), fun hstops => ?_⟩
      cases hstops with
      | unbounded _ hnone =>
          rw [hc] at hnone
          cases hnone
      | evicts _ hc' hevicts => exact absurd (hmem hc' ▸ hevicts) hkept
      | first _ hc' hdegenerate => exact absurd (hmem hc' ▸ hdegenerate) hlong
      | heads htosses _ => exact absurd htosses hquiet

/-- What is scanned from column `k` on has the answer of the rule, if no
column before `k` stops the scan. -/
theorem selects_scan (hord : Scalar.TotallyOrdered α) {rest : List (Column α)}
    (hrest : d.tableau.columns.drop k = rest) (hwidth : k ≤ d.tableau.width)
    (hgo : ∀ i < k, ¬ d.Stops limits source i)
    {best : Option (Choice α)} (hbest : d.Leads limits k best) :
    d.Selects limits source (Selection.scan limits d.tableau.rhs.entries d.left (k + 1) rest best
      (Source.afterCoins source (d.tosses limits k))) := by
  induction rest generalizing k best with
  | nil =>
      obtain rfl : k = d.tableau.width := le_antisymm hwidth (List.drop_eq_nil_iff.1 hrest)
      unfold Selection.scan Selection.ofBest
      cases best with
      | none =>
          have hnever : ∀ i, ¬ d.Improves limits i := fun i hi => hbest i hi.lt_width hi
          rw [tosses_eq_zero hnever]
          exact .optimal hnever
      | some c =>
          obtain ⟨j, hj⟩ := hbest
          exact .best (fun i hi => hgo i hi.improves.lt_width hi) hj
  | cons column rest ih =>
      have hcolumn : d.tableau.columns[k]? = some column := by
        rw [← List.head?_drop, hrest]
        rfl
      have hrest' : d.tableau.columns.drop (k + 1) = rest := by
        rw [← List.tail_drop, hrest]
        rfl
      have hk_lt : k < d.tableau.width := (List.getElem?_eq_some_iff.1 hcolumn).1
      have hgo' : ¬ d.Stops limits source k → ∀ i < k + 1, ¬ d.Stops limits source i := by
        intro hk i hi
        rcases Nat.lt_succ_iff_lt_or_eq.1 hi with hlt | rfl
        · exact hgo i hlt
        · exact hk
      have hleast : d.Stops limits source k → IsLeast {i | d.Stops limits source i} k :=
        fun hk => ⟨hk, fun i hi => not_lt.1 fun hlt => hgo i hlt hi⟩
      unfold Selection.scan
      split
      next hle =>
        have hk : ¬ d.Improves limits k := by
          rw [improves_iff hcolumn, hord.lt_iff, not_not]
          exact hle
        have hquiet : ¬ d.Tosses limits k := fun h => hk h.1
        rw [← tosses_succ_of_not hquiet]
        exact ih hrest' hk_lt (hgo' fun h => hk h.improves) (hbest.skip hk)
      next himproves =>
        have hk : d.Improves limits k := (improves_iff hcolumn).2 (hord.lt_iff.2 himproves)
        have hcandidate : d.candidate limits k = _ := candidate_eq hcolumn
        split
        next hnone =>
          rw [hnone] at hcandidate
          have hquiet : ¬ d.Tosses limits k := by
            rintro ⟨-, -, c, hc, -⟩
            rw [hcandidate] at hc
            cases hc
          rw [← tosses_succ_of_not hquiet]
          exact .unbounded (hleast (.unbounded hk hcandidate)) hcandidate
        next b hb =>
          rw [hb] at hcandidate
          obtain ⟨stop, hstop, hstops⟩ := stopsAt_candidate source hbest hk hcandidate
          dsimp only
          rw [hstop]
          cases stop with
          | true => exact .stopped (hleast (hstops.1 rfl)) hcandidate
          | false =>
              have hk' : ¬ d.Stops limits source k := fun h => by cases hstops.2 h
              exact ih hrest' hk_lt (hgo' hk') (hbest.weigh hord hk hcandidate)

/-- **THE ENTERING COLUMN.**  Over a totally ordered scalar, for every
dictionary, all thresholds and every source of coins: a scan has the answer
of the rule and leaves the source of the rule behind, and the rule has no
other answer. -/
theorem selects_iff (hord : Scalar.TotallyOrdered α) (limits : Limits α) (d : Dictionary α)
    (source : γ) (answer : Selection α × γ) :
    d.Selects limits source answer ↔ Selection.ofDictionary limits d source = answer := by
  have hstart : d.Leads limits 0 none := fun i hi => absurd hi (Nat.not_lt_zero i)
  have hscan : d.Selects limits source (Selection.ofDictionary limits d source) :=
    selects_scan hord rfl (Nat.zero_le _) (fun i hi => absurd hi (Nat.not_lt_zero i)) hstart
  constructor
  · intro h
    exact hscan.unique hord h
  · rintro rfl
    exact hscan

/-- Two columns that improve alike; a step along the first gains 2, one
along the second is degenerate. -/
def tossUp : Dictionary Rat where
  tableau := ⟨⟨0, [2, 0]⟩, [⟨1, [-1, 0]⟩, ⟨1, [0, -1]⟩], by decide⟩
  left := [3, 4]
  right := [1, 2]
  artificials := 0

/-- The coin decides: with heads the degenerate column enters, with tails
the one of the larger gain. -/
theorem selects_iff_tossUp :
    (tossUp.Selects (Settings.exact.limits Rat) (fun _ : Nat => (0 : UInt64))
        (.found ⟨2, 2, -1, 0, 0, true, false⟩, fun _ => 0))
      ∧ tossUp.Selects (Settings.exact.limits Rat) (fun _ : Nat => UInt64.ofNat (UInt64.size - 1))
        (.found ⟨1, 1, -1, 2, 2, false, false⟩, fun _ => UInt64.ofNat (UInt64.size - 1)) := by
  constructor
  · exact (selects_iff totallyOrdered_rat (Settings.exact.limits Rat) tossUp _ _).2 (by cbv)
  · exact (selects_iff totallyOrdered_rat (Settings.exact.limits Rat) tossUp _ _).2 (by cbv)

end Dictionary

end DenseSimplex
