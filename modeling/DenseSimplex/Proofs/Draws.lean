/-
  DenseSimplex.Proofs.Draws
  ─────────────────────────
  **WHATEVER IS DRAWN FITS THE SHAPE.**

  What is known of a drawing's answers, for every source, is put together
  from what is known of its parts (`Drawing.Yields`), and so is that it
  has an answer at all (`Drawing.Succeeds`).  At the bottom is one draw: a
  number of the half-open interval from `low` to `high` is there,
  whichever words the source hands out (`Drawing.yields_real`).

  A row of coefficients is drawn number by number, most of them perhaps
  zero; then one index is drawn, and the coefficient there is replaced by a
  number from 1/2 to 3/2 if it is zero (`Drawing.IsRow`), so that no row
  is zero throughout.

  Every sample that is drawn for a shape is made of draws within their
  ranges (`Sample.yields_drawn`), and so it has lists of the right lengths,
  and its point and slacks are not negative (`Sample.yields_draw`).  If
  lists of these lengths can be held, there is one (`Sample.succeeds_draw`).
-/
import DenseSimplex.Proofs.FirstTableau

namespace DenseSimplex

namespace Drawing

variable {γ β β' : Type}

/-! ## §1. Drawings and their answers. -/

/-- **Every answer of a drawing has a property**, from whatever source it
comes. -/
def Yields (m : Drawing γ β) (Q : β → Prop) : Prop :=
  ∀ (source : γ) (b : β) (after : γ), m source = .ok (b, after) → Q b

theorem Yields.pure {Q : β → Prop} {b : β} (h : Q b) : Yields (Pure.pure b : Drawing γ β) Q := by
  intro source b' after hm
  cases hm
  exact h

theorem Yields.bind {Q : β → Prop} {Q' : β' → Prop} {m : Drawing γ β} {f : β → Drawing γ β'}
    (h : Yields m Q) (hf : ∀ b, Q b → Yields (f b) Q') : Yields (m >>= f) Q' := by
  intro source b' after hm
  have hbind : (m >>= f) source = (m source >>= fun p => f p.1 p.2) := rfl
  rw [hbind] at hm
  cases hfirst : m source with
  | error e =>
      rw [hfirst] at hm
      cases hm
  | ok p =>
      rw [hfirst] at hm
      exact hf p.1 (h source p.1 p.2 hfirst) p.2 b' after hm

theorem Yields.mono {Q Q' : β → Prop} {m : Drawing γ β} (h : Yields m Q) (hQ : ∀ b, Q b → Q' b) :
    Yields m Q' := fun source b after hm => hQ b (h source b after hm)

/-- A draw that is repeated yields as many answers of its kind. -/
theorem Yields.times {Q : β → Prop} {m : Drawing γ β} (h : Yields m Q) (n : Nat) :
    Yields (Drawing.times n m) fun l => l.length = n ∧ ∀ b ∈ l, Q b := by
  induction n with
  | zero => exact .pure ⟨rfl, by simp⟩
  | succ n ih =>
      refine h.bind fun b hb => ih.bind fun l hl => .pure ?_
      exact ⟨congrArg (· + 1) hl.1, List.forall_mem_cons.2 ⟨hb, hl.2⟩⟩

/-- **A drawing has an answer**, whatever the source. -/
def Succeeds (m : Drawing γ β) : Prop := ∀ source : γ, ∃ b after, m source = .ok (b, after)

theorem Succeeds.pure (b : β) : Succeeds (Pure.pure b : Drawing γ β) :=
  fun source => ⟨b, source, rfl⟩

theorem Succeeds.bind {m : Drawing γ β} {f : β → Drawing γ β'} (h : Succeeds m)
    (hf : ∀ b, Succeeds (f b)) : Succeeds (m >>= f) := by
  intro source
  obtain ⟨b, after, hfirst⟩ := h source
  obtain ⟨b', after', hsecond⟩ := hf b after
  refine ⟨b', after', ?_⟩
  show (m source >>= fun p => f p.1 p.2) = _
  rw [hfirst]
  exact hsecond

theorem Succeeds.times {m : Drawing γ β} (h : Succeeds m) (n : Nat) :
    Succeeds (Drawing.times n m) := by
  induction n with
  | zero => exact .pure []
  | succ n ih => exact h.bind fun _ => ih.bind fun _ => .pure _

/-! ## §2. Numbers. -/

variable [Source γ]

/-- A rejected word is followed by another one, and the last resort is the
lower bound. -/
theorem drawScaled_mem {low high : Rat} (h : low < high) (tries : Nat) (source : γ) :
    low ≤ (Source.drawScaled low high (high - low) tries source).1
      ∧ (Source.drawScaled low high (high - low) tries source).1 < high := by
  induction tries generalizing source with
  | zero => exact ⟨le_refl low, h⟩
  | succ tries ih =>
      unfold Source.drawScaled
      dsimp only
      split
      next hlt =>
        refine ⟨?_, hlt⟩
        have hfraction : (0 : Rat)
            ≤ ReportScalar.ofNat ((Source.draw source).1.toNat >>> 12)
              / ReportScalar.ofNat (1 <<< 52) := div_nonneg (Nat.cast_nonneg _) (Nat.cast_nonneg _)
        exact le_add_of_nonneg_left (mul_nonneg hfraction (le_of_lt (sub_pos.2 h)))
      next => exact ih _

/-- **A number of an interval lies in the interval.** -/
theorem yields_real (low high : Rat) :
    Yields (real low high : Drawing γ Rat) fun v => low ≤ v ∧ v < high := by
  intro source v after hm
  unfold real Source.drawReal at hm
  split at hm
  · cases hm
  · split at hm
    next hlt =>
      obtain rfl := congrArg Prod.fst (Except.ok.inj hm)
      exact drawScaled_mem hlt _ _
    next => cases hm

theorem succeeds_real {low high : Rat} (h : low < high) :
    Succeeds (real low high : Drawing γ Rat) := by
  intro source
  unfold real Source.drawReal
  have hfinite : (!(Scalar.isFinite low && Scalar.isFinite high && Scalar.isFinite (high - low)))
      = false := rfl
  rw [hfinite, if_neg Bool.false_ne_true, if_pos h]
  exact ⟨_, _, rfl⟩

theorem exists_index (size : Nat) (source : γ) :
    ∃ n after, index size source = .ok (n, after) ∧ n ≤ size - 1 :=
  Source.exists_drawBetween (Nat.zero_le _) source

/-- **An index below a positive number is below it.** -/
theorem yields_index {size : Nat} (h : 0 < size) :
    Yields (index size : Drawing γ Nat) fun n => n < size := by
  intro source n after hm
  obtain ⟨n', after', hdraw, hle⟩ := exists_index size source
  rw [hdraw] at hm
  cases hm
  omega

theorem succeeds_index (size : Nat) : Succeeds (index size : Drawing γ Nat) := by
  intro source
  obtain ⟨n, after, hdraw, -⟩ := exists_index size source
  exact ⟨n, after, hdraw⟩

theorem succeeds_chance {p : Rat} (hlow : 0 ≤ p) (hhigh : p ≤ 1) :
    Succeeds (chance p : Drawing γ Bool) := by
  intro source
  unfold chance Source.drawChance
  split
  · exact ⟨_, _, rfl⟩
  next hone =>
    have hlt : p < 1 := by
      refine lt_of_le_of_ne hhigh fun heq => hone ?_
      rw [heq]
      rfl
    rw [if_pos ⟨hlow, hlt⟩]
    exact ⟨_, _, rfl⟩

/-! ## §3. Rows. -/

/-- Coefficients with the one at `forced` replaced if it is zero. -/
def forcedRow (coefficients : List Rat) (forced : Nat) (replacement : Rat) : List Rat :=
  if coefficients.getD forced 0 = 0 then coefficients.set forced replacement else coefficients

/-- **A row made of draws within their ranges**: coefficients that are zero
or from -1 to 1, an index, and a replacement from 1/2 to 3/2. -/
def IsRow (size : Nat) (a : List Rat) : Prop :=
  ∃ coefficients forced replacement, a = forcedRow coefficients forced replacement
    ∧ coefficients.length = size ∧ (∀ v ∈ coefficients, v = 0 ∨ -1 ≤ v ∧ v < 1)
    ∧ forced < size ∧ 1 / 2 ≤ replacement ∧ replacement < 3 / 2

/-- A row has a coefficient for each variable. -/
theorem IsRow.length {size : Nat} {a : List Rat} (h : IsRow size a) : a.length = size := by
  obtain ⟨coefficients, forced, replacement, rfl, hlength, -⟩ := h
  unfold forcedRow
  split
  · rw [List.length_set, hlength]
  · exact hlength

/-- **A row has a coefficient that is not zero.** -/
theorem IsRow.exists_ne_zero {size : Nat} {a : List Rat} (h : IsRow size a) :
    ∃ v ∈ a, v ≠ 0 := by
  obtain ⟨coefficients, forced, replacement, rfl, hlength, -, hforced, hlow, -⟩ := h
  have hindex : forced < coefficients.length := by rw [hlength]; exact hforced
  unfold forcedRow
  split
  next =>
    refine ⟨replacement, List.mem_set hindex replacement, ?_⟩
    intro hzero
    norm_num [hzero] at hlow
  next hne =>
    rw [List.getD_eq_getElem _ _ hindex] at hne
    exact ⟨_, List.getElem_mem hindex, hne⟩

theorem yields_coefficient (density : Rat) :
    Yields (coefficient density : Drawing γ Rat) fun v => v = 0 ∨ -1 ≤ v ∧ v < 1 := by
  have hany : Yields (chance density : Drawing γ Bool) fun _ => True := fun _ _ _ _ => trivial
  refine hany.bind fun hit _ => ?_
  cases hit with
  | true => exact (yields_real (-1) 1).mono fun v hv => .inr hv
  | false => exact .pure (.inl rfl)

/-- **A row that is drawn is made of draws within their ranges.** -/
theorem yields_row {size : Nat} (hsize : 0 < size) (density : Rat) :
    Yields (row size density : Drawing γ (List Rat)) (IsRow size) := by
  refine ((yields_coefficient density).times size).bind fun coefficients hcoefficients => ?_
  refine (yields_index hsize).bind fun forced hforced => ?_
  obtain ⟨hlength, hrange⟩ := hcoefficients
  have hown : coefficients[forced]? = some (coefficients.getD forced 0) := by
    rw [List.getD_eq_getElem _ _ (by rw [hlength]; exact hforced)]
    exact List.getElem?_eq_getElem _
  rw [hown]
  dsimp only
  have hbeq : (coefficients.getD forced 0 == 0) = true ↔ coefficients.getD forced 0 = 0 :=
    beq_iff_eq
  split
  next hzero =>
    rw [hbeq] at hzero
    refine (yields_real 0.5 1.5).bind fun replacement hreplacement => .pure ?_
    norm_num at hreplacement
    refine ⟨coefficients, forced, replacement, ?_, hlength, hrange, hforced, hreplacement⟩
    unfold forcedRow
    rw [if_pos hzero]
  next hne =>
    rw [hbeq] at hne
    refine .pure ⟨coefficients, forced, 1 / 2, ?_, hlength, hrange, hforced, by norm_num⟩
    unfold forcedRow
    rw [if_neg hne]

theorem succeeds_row (size : Nat) {density : Rat} (hlow : 0 ≤ density) (hhigh : density ≤ 1) :
    Succeeds (row size density : Drawing γ (List Rat)) := by
  have hcoefficient : Succeeds (coefficient density : Drawing γ Rat) := by
    refine (succeeds_chance hlow hhigh).bind fun hit => ?_
    cases hit with
    | true => exact succeeds_real (by norm_num)
    | false => exact .pure 0
  refine (hcoefficient.times size).bind fun coefficients => (succeeds_index size).bind
    fun forced => ?_
  split
  · split
    · exact (succeeds_real (by norm_num)).bind fun _ => .pure _
    · exact .pure _
  · exact .pure _

end Drawing

/-! ## §4. Samples. -/

theorem Shape.columns_pos {δ : Type} (shape : Shape δ) : 0 < shape.columns :=
  lt_of_lt_of_le Nat.one_pos (le_max_right _ _)

/-- The density is brought between zero and one. -/
theorem Shape.chance_mem (shape : Shape Rat) : 0 ≤ shape.chance ∧ shape.chance ≤ 1 := by
  unfold chance
  split
  · exact ⟨le_refl 0, zero_le_one⟩
  next hlow =>
    split
    · exact ⟨zero_le_one, le_refl 1⟩
    next hhigh => exact ⟨not_lt.1 hlow, not_lt.1 hhigh⟩

/-- **A sample made of draws within their ranges**, for a shape whatever
its density. -/
structure Sample.Drawn {δ : Type} (shape : Shape δ) (s : Sample Rat) : Prop where
  point_length : s.point.length = shape.columns
  point_range : ∀ v ∈ s.point, 1 / 10 ≤ v ∧ v < 11 / 10
  costs_length : s.costs.length = shape.columns
  costs_range : ∀ v ∈ s.costs, 1 / 10 ≤ v ∧ v < 1
  inequalities_length : s.inequalities.length = shape.leRows
  inequality : ∀ row ∈ s.inequalities, Drawing.IsRow shape.columns row.1 ∧ 0 ≤ row.2 ∧ row.2 < 1
  equalities_length : s.equalities.length = shape.equalities
  equality : ∀ a ∈ s.equalities, Drawing.IsRow shape.columns a

/-- Draws within their ranges make a sample that fits, whatever the
density. -/
theorem Sample.Drawn.fits {δ : Type} {shape : Shape δ} {s : Sample Rat} (h : s.Drawn shape)
    (density : Rat) : s.Fits ⟨shape.vars, shape.leRows, shape.eqRows, density⟩ where
  point_length := h.point_length
  point_nonneg v hv := (show (0 : Rat) ≤ 1 / 10 by norm_num).trans (h.point_range v hv).1
  costs_length := h.costs_length
  inequalities_length := h.inequalities_length
  inequality_length row hrow := (h.inequality row hrow).1.length
  slack_nonneg row hrow := (h.inequality row hrow).2.1
  equalities_length := h.equalities_length
  equality_length a ha := (h.equality a ha).length

/-- **Every sample that is drawn for a shape is made of draws within their
ranges.** -/
theorem Sample.yields_drawn {γ : Type} [Source γ] (shape : Shape Rat) :
    Drawing.Yields (Sample.draw shape : Drawing γ (Sample Rat)) (Sample.Drawn shape) := by
  have hrow : Drawing.Yields (Drawing.row shape.columns shape.chance : Drawing γ (List Rat))
      (Drawing.IsRow shape.columns) := Drawing.yields_row shape.columns_pos _
  have hinequality : Drawing.Yields
      (Drawing.inequality shape.columns shape.chance : Drawing γ (List Rat × Rat))
      fun row => Drawing.IsRow shape.columns row.1 ∧ 0 ≤ row.2 ∧ row.2 < 1 :=
    hrow.bind fun a ha => (Drawing.yields_real 0 1).bind fun slack hslack => .pure ⟨ha, hslack⟩
  have hchoices : Drawing.Yields (Sample.choices shape : Drawing γ (Sample Rat))
      (Sample.Drawn shape) := by
    refine ((Drawing.yields_real _ _).times _).bind fun point hpoint => ?_
    refine ((Drawing.yields_real _ _).times _).bind fun costs hcosts => ?_
    refine (hinequality.times _).bind fun inequalities hineq => ?_
    refine (hrow.times _).bind fun equalities heq => .pure ?_
    norm_num at hpoint hcosts
    exact {
      point_length := hpoint.1
      point_range := hpoint.2
      costs_length := hcosts.1
      costs_range := hcosts.2
      inequalities_length := hineq.1
      inequality := hineq.2
      equalities_length := heq.1
      equality := heq.2 }
  unfold draw
  split
  · exact hchoices
  · intro source s after h
    cases h

/-- **Every sample that is drawn for a shape fits it.** -/
theorem Sample.yields_draw {γ : Type} [Source γ] (shape : Shape Rat) :
    Drawing.Yields (Sample.draw shape : Drawing γ (Sample Rat)) (Sample.Fits shape) :=
  (Sample.yields_drawn shape).mono fun _ h => h.fits shape.density

/-- **There is a sample for every shape whose lists can be held.** -/
theorem Sample.succeeds_draw {γ : Type} [Source γ] {shape : Shape Rat}
    (h : shape.canBeHeld = true) :
    Drawing.Succeeds (Sample.draw shape : Drawing γ (Sample Rat)) := by
  obtain ⟨hlow, hhigh⟩ := shape.chance_mem
  have hrow : Drawing.Succeeds (Drawing.row shape.columns shape.chance : Drawing γ (List Rat)) :=
    Drawing.succeeds_row _ hlow hhigh
  have hinequality : Drawing.Succeeds
      (Drawing.inequality shape.columns shape.chance : Drawing γ (List Rat × Rat)) :=
    hrow.bind fun _ => (Drawing.succeeds_real (by norm_num)).bind fun _ => .pure _
  unfold draw
  rw [if_pos h]
  refine ((Drawing.succeeds_real (by norm_num)).times _).bind fun _ => ?_
  refine ((Drawing.succeeds_real (by norm_num)).times _).bind fun _ => ?_
  exact (hinequality.times _).bind fun _ => (hrow.times _).bind fun _ => .pure _

end DenseSimplex
