/-
  DenseSimplex.Proofs.Candidates
  ──────────────────────────────
  **WHAT A SCAN CAN ANSWER.**

  The scan for a pivot keeps a best candidate in hand, tosses coins and may
  stop early.  None of this matters for what its answer means:

      found c      c is the pivot of an improving column with its leaving
                   row (`IsCandidate`),
      unbounded    the column improves and no row bounds it
                   (`IsUnbounded`),
      noPivot      no column improves,

  for every generator, every threshold and any arithmetic
  (`Selection.ofDictionary_explained`).  The leaving row is one of the rows
  that bound the step (`leaving_mem`), and there is one if any row does
  (`leaving_eq_none_iff`).  Where ratios can be compared at all, the
  tightest row is as tight as every row (`tightest_ratio_le`).
-/
import DenseSimplex.Proofs.WellFormed

namespace DenseSimplex

/-- Values that can be compared: on those of which `P` holds, the two
comparisons of a scalar are one total order. -/
structure Scalar.Comparable {α : Type} [Scalar α] (P : α → Prop) : Prop where
  refl : ∀ {a : α}, P a → a ≤ a
  trans : ∀ {a b c : α}, a ≤ b → b ≤ c → a ≤ c
  of_lt : ∀ {a b : α}, a < b → a ≤ b
  of_not_lt : ∀ {a b : α}, P a → P b → ¬ b < a → a ≤ b

/-! ## §1. The rows that bound a step. -/

namespace BoundingRow

variable {α : Type} [Scalar α]

/-- A numbered row carries what the column, the right-hand sides and the
labels hold at its index. -/
theorem mem_number {row : Nat} {entries rhss : List α} {labels : List Int} {b : BoundingRow α} :
    b ∈ number row entries rhss labels ↔
      ∃ k v, b.row = row + k ∧ entries[k]? = some b.entry ∧ rhss[k]? = some v
        ∧ b.available = Scalar.clamped v ∧ labels[k]? = some b.label := by
  induction entries generalizing row rhss labels with
  | nil => simp [number]
  | cons entry entries ih =>
      cases rhss with
      | nil => simp [number]
      | cons rhs rhss =>
          cases labels with
          | nil => simp [number]
          | cons label labels =>
              rw [number, List.mem_cons, ih]
              constructor
              · intro h
                rcases h with rfl | ⟨k, v, hrow, h⟩
                · exact ⟨0, rhs, rfl, rfl, rfl, rfl, rfl⟩
                · exact ⟨k + 1, v, by omega, h⟩
              · intro h
                obtain ⟨k, v, hrow, hentry, hrhs, hav, hlabel⟩ := h
                -- the first row, or a row of the rest, which is numbered from one further on
                cases k with
                | zero =>
                    left
                    obtain ⟨brow, bentry, bavail, blabel⟩ := b
                    simp only [List.getElem?_cons_zero, Option.some.injEq] at hentry hrhs hlabel
                    simp only [BoundingRow.mk.injEq]
                    exact ⟨hrow, hentry.symm, by rw [hrhs]; exact hav, hlabel.symm⟩
                | succ k =>
                    right
                    exact ⟨k, v, by omega, hentry, hrhs, hav, hlabel⟩

/-- A row bounds a step along a column if its entry is below the
tolerance. -/
theorem mem_ofColumn {tol : α} {entries rhss : List α} {labels : List Int} {b : BoundingRow α} :
    b ∈ ofColumn tol entries rhss labels ↔
      (∃ k v, b.row = k + 1 ∧ entries[k]? = some b.entry ∧ rhss[k]? = some v
        ∧ b.available = Scalar.clamped v ∧ labels[k]? = some b.label) ∧ b.entry < -tol := by
  unfold ofColumn
  rw [List.mem_filter, mem_number, decide_eq_true_iff]
  simp only [Nat.add_comm 1]

/-- A row whose entry is below the tolerance bounds the step. -/
theorem exists_mem_ofColumn {tol entry rhs : α} {entries rhss : List α} {labels : List Int}
    {k : Nat} (hentry : entries[k]? = some entry) (hrhs : rhss[k]? = some rhs)
    (hk : k < labels.length) (hlt : entry < -tol) :
    ∃ b ∈ ofColumn tol entries rhss labels,
      b.row = k + 1 ∧ b.entry = entry ∧ b.available = Scalar.clamped rhs := by
  refine ⟨⟨k + 1, entry, Scalar.clamped rhs, labels[k]⟩, ?_, rfl, rfl, rfl⟩
  rw [mem_ofColumn]
  exact ⟨⟨k, rhs, rfl, hentry, hrhs, rfl, List.getElem?_eq_getElem hk⟩, hlt⟩

/-! ## §2. The leaving row. -/

theorem foldl_tighter_mem {rows : List (BoundingRow α)} {best : Option (BoundingRow α)}
    {b : BoundingRow α} (h : rows.foldl tighter best = some b) : best = some b ∨ b ∈ rows := by
  induction rows generalizing best with
  | nil => exact .inl h
  | cons r rows ih =>
      rcases ih h with hr | hmem
      · unfold tighter at hr
        split at hr
        · exact .inr (List.mem_cons.2 (.inl (Option.some.inj hr).symm))
        · split at hr
          · exact .inr (List.mem_cons.2 (.inl (Option.some.inj hr).symm))
          · exact .inl hr
      · exact .inr (List.mem_cons_of_mem _ hmem)

theorem tighter_isSome (best : Option (BoundingRow α)) (b : BoundingRow α) :
    (tighter best b).isSome = true := by
  unfold tighter
  split
  · rfl
  · split <;> rfl

theorem foldl_tighter_isSome (rows : List (BoundingRow α)) {best : Option (BoundingRow α)}
    (h : best.isSome = true) : (rows.foldl tighter best).isSome = true := by
  induction rows generalizing best with
  | nil => exact h
  | cons r rows ih => exact ih (tighter_isSome best r)

theorem tightest_eq_none_iff {rows : List (BoundingRow α)} : tightest rows = none ↔ rows = [] := by
  cases rows with
  | nil => simp [tightest]
  | cons r rows =>
      have hsome := foldl_tighter_isSome rows (tighter_isSome none r)
      constructor
      · intro h
        rw [show rows.foldl tighter (tighter none r) = none from h] at hsome
        cases hsome
      · intro h
        cases h

theorem tightest_mem {rows : List (BoundingRow α)} {b : BoundingRow α}
    (h : tightest rows = some b) : b ∈ rows := by
  rcases foldl_tighter_mem h with h | h
  · cases h
  · exact h

/-- The tighter of two rows is as tight as either. -/
theorem tighter_ratio_le {P : α → Prop} (hP : Scalar.Comparable P) {best : Option (BoundingRow α)}
    (hbest : ∀ a, best = some a → P a.ratio) {b : BoundingRow α} (hb : P b.ratio) :
    ∃ m, tighter best b = some m ∧ P m.ratio ∧ m.ratio ≤ b.ratio
      ∧ ∀ a, best = some a → m.ratio ≤ a.ratio := by
  cases best with
  | none => exact ⟨b, rfl, hb, hP.refl hb, by simp⟩
  | some a =>
      have ha := hbest a rfl
      unfold tighter
      by_cases hlt : b.ratio < a.ratio
      · refine ⟨b, if_pos hlt, hb, hP.refl hb, ?_⟩
        rintro _ ⟨⟩
        exact hP.of_lt hlt
      · refine ⟨a, if_neg hlt, ha, hP.of_not_lt ha hb hlt, ?_⟩
        rintro _ ⟨⟩
        exact hP.refl ha

/-- Folding `tighter` ends at a row as tight as all rows on the way. -/
theorem foldl_tighter_ratio_le {P : α → Prop} (hP : Scalar.Comparable P)
    {rows : List (BoundingRow α)} (hrows : ∀ b ∈ rows, P b.ratio)
    {best : Option (BoundingRow α)} (hbest : ∀ a, best = some a → P a.ratio) {m : BoundingRow α}
    (h : rows.foldl tighter best = some m) :
    (∀ a, best = some a → m.ratio ≤ a.ratio) ∧ ∀ b ∈ rows, m.ratio ≤ b.ratio := by
  induction rows generalizing best with
  | nil =>
      refine ⟨fun a ha => ?_, by simp⟩
      obtain rfl : a = m := Option.some.inj (ha.symm.trans h)
      exact hP.refl (hbest a ha)
  | cons r rows ih =>
      obtain ⟨hr, hrest⟩ := List.forall_mem_cons.1 hrows
      obtain ⟨c, hc, hPc, hcr, hcbest⟩ := tighter_ratio_le hP hbest hr
      have hPbest : ∀ a, tighter best r = some a → P a.ratio := by
        intro a ha
        rwa [← Option.some.inj (hc.symm.trans ha)]
      obtain ⟨hstart, hle⟩ := ih hrest hPbest h
      have hmc : m.ratio ≤ c.ratio := hstart c hc
      refine ⟨fun a ha => hP.trans hmc (hcbest a ha), ?_⟩
      exact List.forall_mem_cons.2 ⟨hP.trans hmc hcr, hle⟩

/-- **The tightest row is as tight as every row**, if the ratios can be
compared. -/
theorem tightest_ratio_le {P : α → Prop} (hP : Scalar.Comparable P) {rows : List (BoundingRow α)}
    (hrows : ∀ b ∈ rows, P b.ratio) {m : BoundingRow α} (h : tightest rows = some m) :
    ∀ b ∈ rows, m.ratio ≤ b.ratio :=
  (foldl_tighter_ratio_le hP hrows (by simp) h).2

/-- The leaving row is the tightest row, or the row of an artificial
variable that may replace it. -/
theorem leaving_cases {limits : Limits α} {rows : List (BoundingRow α)} {b : BoundingRow α}
    (h : leaving limits rows = some b) :
    tightest rows = some b ∨
      ∃ min, tightest rows = some min ∧ b ∈ rows ∧ mayReplace limits rows min b = true := by
  unfold leaving at h
  split at h
  · cases h
  next min hmin =>
    split at h
    · exact .inl (hmin.trans h)
    · split at h
      next r hr =>
        obtain rfl := Option.some.inj h
        exact .inr ⟨min, hmin, List.mem_of_find?_eq_some hr, List.find?_some hr⟩
      · exact .inl (hmin.trans h)

theorem leaving_mem {limits : Limits α} {rows : List (BoundingRow α)} {b : BoundingRow α}
    (h : leaving limits rows = some b) : b ∈ rows := by
  rcases leaving_cases h with h | ⟨_, _, hmem, _⟩
  · exact tightest_mem h
  · exact hmem

/-- **Only an artificial variable leaves in place of a tighter row**, if
the ratios can be compared. -/
theorem isArtificial_of_tighter {P : α → Prop} (hP : Scalar.Comparable P) {limits : Limits α}
    {rows : List (BoundingRow α)} (hrows : ∀ r ∈ rows, P r.ratio) {b : BoundingRow α}
    (h : leaving limits rows = some b) {r : BoundingRow α} (hr : r ∈ rows)
    (htighter : ¬ b.ratio ≤ r.ratio) : isArtificial b.label = true := by
  rcases leaving_cases h with hmin | ⟨min, -, -, hreplace⟩
  · exact absurd (tightest_ratio_le hP hrows hmin r hr) htighter
  · unfold mayReplace at hreplace
    rw [Bool.and_eq_true, Bool.and_eq_true] at hreplace
    exact hreplace.1.1

/-- **A row leaves exactly if some row bounds the step.** -/
theorem leaving_eq_none_iff {limits : Limits α} {rows : List (BoundingRow α)} :
    leaving limits rows = none ↔ rows = [] := by
  rw [← tightest_eq_none_iff]
  unfold leaving
  split
  next h => simp [h]
  next min h =>
    -- some row leaves, whichever of the two rules picks it
    simp only [h, reduceCtorEq, iff_false]
    split
    · simp
    · split <;> simp

end BoundingRow

/-- No row leaves exactly if no constraint entry is below the tolerance. -/
theorem leavingRow_eq_none_iff {α : Type} [Scalar α] {limits : Limits α} {entries rhss : List α}
    {labels : List Int} (hrhs : rhss.length = entries.length)
    (hlabels : labels.length = entries.length) :
    leavingRow limits entries rhss labels = none ↔ ∀ v ∈ entries, ¬ v < -limits.pivotTol := by
  unfold leavingRow
  rw [BoundingRow.leaving_eq_none_iff, List.eq_nil_iff_forall_not_mem]
  constructor
  · intro h v hv hlt
    obtain ⟨k, hk, rfl⟩ := List.getElem_of_mem hv
    have hrow : k < rhss.length := by omega
    have hlabel : k < labels.length := by omega
    obtain ⟨b, hb, -⟩ := BoundingRow.exists_mem_ofColumn (List.getElem?_eq_getElem hk)
      (List.getElem?_eq_getElem hrow) hlabel hlt
    exact h b hb
  · intro h b hb
    obtain ⟨⟨k, v, _, hentry, _⟩, hlt⟩ := BoundingRow.mem_ofColumn.1 hb
    exact h b.entry (List.mem_of_getElem? hentry) hlt

/-! ## §3. The answer of a scan. -/

section

variable {α γ : Type} [Scalar α] [Source γ]

/-- A choice is the pivot of an improving column, of columns numbered from
`start` on, with its leaving row. -/
def IsCandidate (limits : Limits α) (rhs : List α) (labels : List Int) (start : Nat)
    (columns : List (Column α)) (c : Choice α) : Prop :=
  ∃ j column b, columns[j]? = some column ∧ ¬ column.objective ≤ limits.epsObjective
    ∧ leavingRow limits column.entries rhs labels = some b
    ∧ c = Choice.ofLeaving limits (start + j) column.objective b

/-- A column, of columns numbered from `start` on, improves the objective
and no row bounds it. -/
def IsUnbounded (limits : Limits α) (rhs : List α) (labels : List Int) (start : Nat)
    (columns : List (Column α)) (col : Nat) : Prop :=
  ∃ j column, columns[j]? = some column ∧ col = start + j
    ∧ ¬ column.objective ≤ limits.epsObjective
    ∧ leavingRow limits column.entries rhs labels = none

/-- No column improves the objective. -/
def NoneImproves (limits : Limits α) (columns : List (Column α)) : Prop :=
  ∀ column ∈ columns, column.objective ≤ limits.epsObjective

variable {limits : Limits α} {rhs : List α} {labels : List Int} {start : Nat} {c : Column α}
  {columns : List (Column α)}

theorem IsCandidate.cons {choice : Choice α}
    (h : IsCandidate limits rhs labels (start + 1) columns choice) :
    IsCandidate limits rhs labels start (c :: columns) choice := by
  obtain ⟨j, column, b, hj, himp, hb, rfl⟩ := h
  exact ⟨j + 1, column, b, hj, himp, hb, by rw [Nat.add_right_comm, Nat.add_assoc]⟩

theorem IsUnbounded.cons {col : Nat}
    (h : IsUnbounded limits rhs labels (start + 1) columns col) :
    IsUnbounded limits rhs labels start (c :: columns) col := by
  obtain ⟨j, column, hj, rfl, h⟩ := h
  exact ⟨j + 1, column, hj, by omega, h⟩

namespace Selection

/-- What an answer says about the columns that were scanned with a best
candidate in hand. -/
def Explained (limits : Limits α) (rhs : List α) (labels : List Int) (start : Nat)
    (columns : List (Column α)) (best : Option (Choice α)) : Selection α → Prop
  | .found choice => best = some choice ∨ IsCandidate limits rhs labels start columns choice
  | .unbounded col => IsUnbounded limits rhs labels start columns col
  | .noPivot => best = none ∧ NoneImproves limits columns

/-- A column that does not improve is passed over. -/
theorem Explained.skip {best : Option (Choice α)} {answer : Selection α}
    (hc : c.objective ≤ limits.epsObjective)
    (h : Explained limits rhs labels (start + 1) columns best answer) :
    Explained limits rhs labels start (c :: columns) best answer := by
  cases answer with
  | found choice => exact h.imp_right IsCandidate.cons
  | unbounded col => exact IsUnbounded.cons h
  | noPivot => exact ⟨h.1, List.forall_mem_cons.2 ⟨hc, h.2⟩⟩

/-- A candidate in hand that came from the first column, or was in hand
before, makes no difference. -/
theorem Explained.weigh {best : Option (Choice α)} {candidate : Choice α} {answer : Selection α}
    (hcand : IsCandidate limits rhs labels start (c :: columns) candidate)
    (h : Explained limits rhs labels (start + 1) columns (some (Choice.better best candidate))
      answer) :
    Explained limits rhs labels start (c :: columns) best answer := by
  cases answer with
  | found choice =>
      rcases h with h | h
      · have hchoice : Choice.better best candidate = choice := Option.some.inj h
        unfold Choice.better at hchoice
        split at hchoice
        · exact .inr (hchoice ▸ hcand)
        · split at hchoice
          · exact .inr (hchoice ▸ hcand)
          · exact .inl (congrArg some hchoice)
      · exact .inr h.cons
  | unbounded col => exact IsUnbounded.cons h
  | noPivot => cases h.1

/-- **Whatever the coins, the answer of a scan is explained by the columns
and the candidate it started with.** -/
theorem scan_explained (limits : Limits α) (rhs : List α) (labels : List Int) (start : Nat)
    (columns : List (Column α)) (best : Option (Choice α)) (source : γ) :
    Explained limits rhs labels start columns best
      (scan limits rhs labels start columns best source).1 := by
  -- the candidate in hand changes from column to column, so it is part of the induction
  induction columns generalizing start best source with
  | nil =>
      unfold scan ofBest
      cases best with
      | none => exact ⟨rfl, fun _ h => absurd h List.not_mem_nil⟩
      | some choice => exact .inl rfl
  | cons c columns ih =>
      unfold scan
      split
      next hle => exact (ih _ _ _).skip hle
      next himp =>
        split
        next hnone => exact ⟨0, c, rfl, rfl, himp, hnone⟩
        next b hb =>
          have hcand : IsCandidate limits rhs labels start (c :: columns)
              (Choice.ofLeaving limits start c.objective b) := ⟨0, c, b, rfl, himp, hb, rfl⟩
          simp only
          split
          -- the scan stops at this candidate, or weighs it and goes on
          · exact .inr hcand
          · exact (ih _ _ _).weigh hcand

/-- **The answer about a dictionary**: the pivot of an improving column, an
improving column that nothing bounds, or that no column improves. -/
theorem ofDictionary_explained (limits : Limits α) (d : Dictionary α) (source : γ) :
    Explained limits d.tableau.rhs.entries d.left 1 d.tableau.columns none
      (ofDictionary limits d source).1 :=
  scan_explained ..

end Selection

end

end DenseSimplex
