/-
  DenseSimplex.Proofs.Acceptance
  ──────────────────────────────
  **WHICH PARTS FORM A DICTIONARY, AND WHY OTHERS ARE REFUSED.**

  A tableau, two lists of labels and a count of artificial variables form
  a dictionary if six conditions hold, which are checked in this order:

      left has a label for each constraint row,
      right has a label for each column,
      no label occurs twice,
      the negative labels are as many as declared,
      and at most as many as the columns,
      every entry is finite.

  Parts that pass are handed back as they are; parts that fail are refused
  for the first condition that they violate (`Dictionary.Refused`,
  `Dictionary.ofParts_spec`).  Two of the conditions are found to fail by
  a scan, and the refusal says where it stopped: at the earliest label
  that occurs before (`Dictionary.RepeatsFirst`), and at the earliest
  entry of the buffer, whose index is read as a column and a row
  (`Tableau.IsFirstNonFinite`).
-/
import DenseSimplex.Proofs.WellFormed

namespace DenseSimplex

/-! ## §1. The first repeated label. -/

namespace Dictionary

/-- **The label at the earliest place of a list at which a label occurs
that was there before.** -/
def RepeatsFirst (ids : List Int) (id : Int) : Prop :=
  ∃ before after, ids = before ++ id :: after ∧ id ∈ before ∧ before.Nodup

/-- The scan stops at the first label that was seen, in the list or before
it. -/
theorem firstRepeated_eq_some_iff {seen ids : List Int} {id : Int} :
    firstRepeated seen ids = some id ↔
      ∃ before after, ids = before ++ id :: after ∧ (id ∈ before ∨ id ∈ seen)
        ∧ before.Nodup ∧ ∀ b ∈ before, b ∉ seen := by
  induction ids generalizing seen with
  | nil => simp [firstRepeated]
  | cons first ids ih =>
      by_cases hfirst : first ∈ seen
      · simp only [firstRepeated, hfirst, if_true, Option.some.injEq]
        constructor
        · rintro rfl
          exact ⟨[], ids, rfl, .inr hfirst, List.nodup_nil, by simp⟩
        · intro h
          obtain ⟨before, after, hsplit, -, -, hunseen⟩ := h
          cases before with
          | nil => exact (List.cons.inj hsplit).1
          | cons b before =>
              obtain rfl := (List.cons.inj hsplit).1
              exact absurd hfirst (hunseen _ List.mem_cons_self)
      · simp only [firstRepeated, hfirst, if_false, ih]
        constructor
        · intro h
          obtain ⟨before, after, rfl, hid, hnodup, hunseen⟩ := h
          refine ⟨first :: before, after, rfl, ?_, ?_, ?_⟩
          · simp only [List.mem_cons] at hid ⊢
            tauto
          · rw [List.nodup_cons]
            exact ⟨fun hmem => hunseen first hmem List.mem_cons_self, hnodup⟩
          · rw [List.forall_mem_cons]
            exact ⟨hfirst, fun b hb hseen => hunseen b hb (List.mem_cons_of_mem _ hseen)⟩
        · intro h
          obtain ⟨before, after, hsplit, hid, hnodup, hunseen⟩ := h
          cases before with
          -- the label itself was not seen, so it does not stand at the front
          | nil =>
              obtain rfl := (List.cons.inj hsplit).1
              exact absurd (hid.resolve_left List.not_mem_nil) hfirst
          | cons b before =>
              obtain ⟨rfl, rfl⟩ := List.cons.inj hsplit
              rw [List.nodup_cons] at hnodup
              rw [List.forall_mem_cons] at hunseen
              refine ⟨before, after, rfl, ?_, hnodup.2, fun b hb hseen => ?_⟩
              · simp only [List.mem_cons] at hid ⊢
                tauto
              · rcases List.mem_cons.1 hseen with rfl | hseen
                · exact hnodup.1 hb
                · exact hunseen.2 b hb hseen

theorem firstRepeated_nil_eq_some_iff {ids : List Int} {id : Int} :
    firstRepeated [] ids = some id ↔ RepeatsFirst ids id := by
  simp [firstRepeated_eq_some_iff, RepeatsFirst]

end Dictionary

/-! ## §2. The first entry that is not finite. -/

namespace Tableau

variable {α : Type}

theorem getElem?_flatMap_toList {height : Nat} (columns : List (Column α))
    (h : ∀ c ∈ columns, c.height = height) (col : Nat) {row : Nat} (hrow : row < height + 1) :
    (columns.flatMap Column.toList)[col * (height + 1) + row]?
      = columns[col]?.bind (·.get? row) := by
  induction columns generalizing col with
  | nil => simp
  | cons c columns ih =>
      obtain ⟨hc, hcolumns⟩ := List.forall_mem_cons.1 h
      have hlength : c.toList.length = height + 1 := congrArg (· + 1) hc
      rw [List.flatMap_cons]
      cases col with
      | zero =>
          rw [Nat.zero_mul, Nat.zero_add, List.getElem?_append_left (hlength ▸ hrow)]
          rfl
      | succ col =>
          have hindex : (col + 1) * (height + 1) + row
              = c.toList.length + (col * (height + 1) + row) := by
            rw [hlength, Nat.succ_mul]
            omega
          rw [hindex, List.getElem?_append_right (Nat.le_add_right _ _),
            Nat.add_sub_cancel_left, ih hcolumns]
          rfl

/-- **The buffer holds one column after the other.** -/
theorem getElem?_toColumnMajor (t : Tableau α) (col : Nat) {row : Nat} (hrow : row < t.rows) :
    t.toColumnMajor[col * t.rows + row]? = t.entry? col row := by
  apply getElem?_flatMap_toList t.allColumns _ col hrow
  intro c hc
  rcases List.mem_cons.1 hc with rfl | hc
  · rfl
  · exact t.uniform c hc

/-- Every index of the buffer is that of an entry. -/
theorem getElem?_toColumnMajor_div_mod (t : Tableau α) (i : Nat) :
    t.toColumnMajor[i]? = t.entry? (i / t.rows) (i % t.rows) := by
  have hpos : 0 < t.rows := Nat.succ_pos _
  rw [← t.getElem?_toColumnMajor _ (Nat.mod_lt i hpos), Nat.div_add_mod']

theorem row_lt_of_entry {t : Tableau α} {col row : Nat} {v : α} (h : t.entry? col row = some v) :
    row < t.rows := by
  obtain ⟨c, hc, hv⟩ := Option.bind_eq_some_iff.1 h
  have hlt : row < c.toList.length := (List.getElem?_eq_some_iff.1 hv).1
  have hlength : c.toList.length = t.rows := congrArg (· + 1) (height_of_column? hc)
  omega

variable [Scalar α]

/-- **The place of the first entry that is infinite or not a number**,
column by column and from the objective row downwards. -/
structure IsFirstNonFinite (t : Tableau α) (col row : Nat) : Prop where
  here : ∃ v, t.entry? col row = some v ∧ Scalar.isFinite v = false
  before : ∀ col' row' v, t.entry? col' row' = some v →
    col' < col ∨ col' = col ∧ row' < row → Scalar.isFinite v = true

/-- **Every entry is finite.** -/
def AllFinite (t : Tableau α) : Prop :=
  ∀ col row v, t.entry? col row = some v → Scalar.isFinite v = true

/-- An entry before another one, column by column, comes before it in the
buffer. -/
theorem index_lt_iff {rows col row col' row' : Nat} (hrow : row < rows) (hrow' : row' < rows) :
    col' * rows + row' < col * rows + row ↔ col' < col ∨ col' = col ∧ row' < row := by
  rcases Nat.lt_trichotomy col' col with hlt | rfl | hgt
  · have hmul : (col' + 1) * rows ≤ col * rows := Nat.mul_le_mul_right rows hlt
    rw [Nat.succ_mul] at hmul
    omega
  · omega
  · have hmul : (col + 1) * rows ≤ col' * rows := Nat.mul_le_mul_right rows hgt
    rw [Nat.succ_mul] at hmul
    omega

/-- **The search finds nothing exactly if every entry is finite.** -/
theorem findNonFinite_eq_none_iff {t : Tableau α} : t.findNonFinite = none ↔ t.AllFinite := by
  unfold findNonFinite
  rw [Option.map_eq_none_iff, List.findIdx?_eq_none_iff]
  constructor
  · intro h col row v hv
    have hmem : v ∈ t.toColumnMajor := by
      rw [← t.getElem?_toColumnMajor col (row_lt_of_entry hv)] at hv
      exact List.mem_of_getElem? hv
    simpa using h v hmem
  · intro h v hv
    obtain ⟨i, hi⟩ := List.getElem?_of_mem hv
    rw [t.getElem?_toColumnMajor_div_mod] at hi
    simp [h _ _ _ hi]

/-- **The search finds the first entry that is not finite.** -/
theorem findNonFinite_eq_some_iff {t : Tableau α} {col row : Nat} :
    t.findNonFinite = some (col, row) ↔ t.IsFirstNonFinite col row := by
  have hpos : 0 < t.rows := Nat.succ_pos _
  unfold findNonFinite
  rw [Option.map_eq_some_iff]
  constructor
  · intro h
    obtain ⟨i, hi, hplace⟩ := h
    obtain ⟨rfl, rfl⟩ := Prod.mk.inj hplace
    obtain ⟨hlt, hhere, hbefore⟩ := List.findIdx?_eq_some_iff_getElem.1 hi
    refine ⟨⟨_, ?_, by simpa using hhere⟩, fun col' row' v hv hlex => ?_⟩
    · rw [← t.getElem?_toColumnMajor_div_mod]
      exact List.getElem?_eq_getElem hlt
    · have hrow' := row_lt_of_entry hv
      have hindex : col' * t.rows + row' < i := by
        rw [← Nat.div_add_mod' i t.rows]
        exact (index_lt_iff (Nat.mod_lt i hpos) hrow').2 hlex
      rw [← t.getElem?_toColumnMajor col' hrow', List.getElem?_eq_getElem (hindex.trans hlt)] at hv
      have hfinite := hbefore _ hindex
      rw [Option.some.inj hv] at hfinite
      simpa using hfinite
  · intro h
    obtain ⟨v, hv, hnot⟩ := h.here
    have hrow := row_lt_of_entry hv
    rw [← t.getElem?_toColumnMajor col hrow] at hv
    obtain ⟨hlt, hget⟩ := List.getElem?_eq_some_iff.1 hv
    refine ⟨col * t.rows + row, ?_, ?_⟩
    · refine List.findIdx?_eq_some_iff_getElem.2 ⟨hlt, by simp [hget, hnot], fun j hj => ?_⟩
      have hentry := List.getElem?_eq_getElem (hj.trans hlt)
      rw [t.getElem?_toColumnMajor_div_mod] at hentry
      rw [← Nat.div_add_mod' j t.rows] at hj
      simp [h.before _ _ _ hentry ((index_lt_iff hrow (Nat.mod_lt j hpos)).1 hj)]
    · rw [Nat.mul_comm, Nat.mul_add_div hpos, Nat.div_eq_of_lt hrow, Nat.mul_add_mod,
        Nat.mod_eq_of_lt hrow, Nat.add_zero]

end Tableau

/-! ## §3. Refusals. -/

namespace Dictionary

variable {α : Type} [Scalar α]

/-- **Why parts are refused**: the first condition that they violate, all
earlier ones being met. -/
inductive Refused (d : Dictionary α) : InputError → Prop where
  | leftLabels (h : d.left.length ≠ d.tableau.height) :
      Refused d (.dimensionMismatch .leftLabels d.tableau.height d.left.length)
  | rightLabels (hleft : d.left.length = d.tableau.height)
      (h : d.right.length ≠ d.tableau.width) :
      Refused d (.dimensionMismatch .rightLabels d.tableau.width d.right.length)
  | duplicate (hleft : d.left.length = d.tableau.height) (hright : d.right.length = d.tableau.width)
      (id : Int) (h : RepeatsFirst d.labels id) : Refused d (.duplicateLabel id)
  | miscounted (hleft : d.left.length = d.tableau.height)
      (hright : d.right.length = d.tableau.width) (hnodup : d.labels.Nodup)
      (h : countArtificial d.labels ≠ d.artificials) :
      Refused d (.artificialCount d.artificials (countArtificial d.labels))
  | tooMany (hleft : d.left.length = d.tableau.height) (hright : d.right.length = d.tableau.width)
      (hnodup : d.labels.Nodup)
      (hcount : countArtificial d.labels = d.artificials)
      (h : d.tableau.width < d.artificials) :
      Refused d (.tooManyArtificial d.artificials d.tableau.width)
  | nonFinite (hd : d.WellFormed) (col row : Nat) (h : d.tableau.IsFirstNonFinite col row) :
      Refused d (.nonFinite col row)

/-- **The checks name the first condition that is violated.** -/
theorem validate_eq_error_iff {d : Dictionary α} {e : InputError} :
    d.validate = .error e ↔ d.Refused e := by
  constructor
  · intro h
    -- each check that is passed is a premise of the later refusals
    unfold validate at h
    split at h
    next hleft =>
      cases h
      exact .leftLabels hleft
    next hleft =>
      rw [not_not] at hleft
      split at h
      next hright =>
        cases h
        exact .rightLabels hleft hright
      next hright =>
        rw [not_not] at hright
        split at h
        next id hid =>
          cases h
          exact .duplicate hleft hright id (firstRepeated_nil_eq_some_iff.1 hid)
        next hnone =>
          have hnodup := (firstRepeated_eq_none_iff.1 hnone).1
          split at h
          next hcount =>
            cases h
            exact .miscounted hleft hright hnodup hcount
          next hcount =>
            rw [not_not] at hcount
            split at h
            next hmany =>
              cases h
              exact .tooMany hleft hright hnodup hcount hmany
            next hmany =>
              split at h
              next col row hfound =>
                cases h
                exact .nonFinite ⟨hleft, hright, hnodup, hcount, not_lt.1 hmany⟩ col row
                  (Tableau.findNonFinite_eq_some_iff.1 hfound)
              · cases h
  · intro h
    have hnone : d.labels.Nodup → firstRepeated [] d.labels = none := fun hnodup =>
      firstRepeated_eq_none_iff.2 ⟨hnodup, by simp⟩
    cases h with
    | leftLabels h => simp [validate, h]
    | rightLabels hleft h => simp [validate, hleft, h]
    | duplicate hleft hright id h =>
        simp [validate, hleft, hright, firstRepeated_nil_eq_some_iff.2 h]
    | miscounted hleft hright hnodup h => simp [validate, hleft, hright, hnone hnodup, h]
    | tooMany hleft hright hnodup hcount h =>
        simp [validate, hleft, hright, hnone hnodup, hcount, h]
    | nonFinite hd col row h =>
        rw [hd.validate_eq, Tableau.findNonFinite_eq_some_iff.2 h]

/-- Parts are accepted if they are valid together. -/
theorem ofParts_eq_ok_iff (d₀ d : Dictionary α) :
    ofParts d₀.tableau d₀.left d₀.right d₀.artificials = .ok d ↔ d = d₀ ∧ d₀.validate = .ok () := by
  obtain ⟨tableau, left, right, artificials⟩ := d₀
  unfold ofParts
  dsimp only
  cases (⟨tableau, left, right, artificials⟩ : Dictionary α).validate with
  | ok _ => simp [eq_comm]
  | error e => simp

/-- Parts are refused for the reason for which they are not valid. -/
theorem ofParts_eq_error_iff (d₀ : Dictionary α) (e : InputError) :
    ofParts d₀.tableau d₀.left d₀.right d₀.artificials = .error e ↔ d₀.validate = .error e := by
  obtain ⟨tableau, left, right, artificials⟩ := d₀
  unfold ofParts
  dsimp only
  cases (⟨tableau, left, right, artificials⟩ : Dictionary α).validate with
  | ok _ => simp
  | error e' => simp

/-- **THE PARTS OF A DICTIONARY.**  For all parts:

  * they are accepted exactly if both lists have the right length, no label
    occurs twice, the negative labels are as many as declared and at most
    as many as the columns, and every entry is finite; what comes out has
    the very parts that were handed in;
  * they are refused with an error exactly if that error names the first
    of these conditions that is violated. -/
theorem ofParts_spec (tableau : Tableau α) (left right : List Int) (artificials : Nat) :
    (∀ d : Dictionary α, ofParts tableau left right artificials = .ok d ↔
        d = ⟨tableau, left, right, artificials⟩
          ∧ left.length = tableau.height ∧ right.length = tableau.width
          ∧ (left ++ right).Nodup ∧ countArtificial (left ++ right) = artificials
          ∧ artificials ≤ tableau.width ∧ tableau.AllFinite)
      ∧ ∀ e : InputError, ofParts tableau left right artificials = .error e ↔
        (⟨tableau, left, right, artificials⟩ : Dictionary α).Refused e := by
  set d₀ : Dictionary α := ⟨tableau, left, right, artificials⟩
  constructor
  · intro d
    have haccepted : ofParts tableau left right artificials = .ok d
        ↔ d = d₀ ∧ d₀.WellFormed ∧ tableau.AllFinite := by
      rw [ofParts_eq_ok_iff d₀, validate_eq_ok_iff, Tableau.findNonFinite_eq_none_iff]
    rw [haccepted]
    constructor
    · rintro ⟨hd, hwf, hfinite⟩
      exact ⟨hd, hwf.left_length, hwf.right_length, hwf.nodup, hwf.count, hwf.count_le, hfinite⟩
    · rintro ⟨hd, hleft, hright, hnodup, hcount, hle, hfinite⟩
      exact ⟨hd, ⟨hleft, hright, hnodup, hcount, hle⟩, hfinite⟩
  · intro e
    rw [← validate_eq_error_iff]
    exact ofParts_eq_error_iff d₀ e

/-- A label that occurs twice is found before the count that does not
match. -/
example :
    (match ofParts (Tableau.ofBuffer 1 2 [0, 1, 1, 1, 0, 0] rfl : Tableau Rat) [4] [-1, 4] 5 with
    | .ok _ => none
    | .error e => some e) = some (.duplicateLabel 4) := by decide

end Dictionary

end DenseSimplex
