/-
  DenseSimplex.Proofs.Buffers
  ───────────────────────────
  **A TABLEAU AND THE BUFFER THAT HOLDS IT COLUMN AFTER COLUMN.**

  A tableau is taken from a buffer and given back as one, with the entry of
  column `c` and row `r` at index

      c · rows + r .

  The buffer is accepted iff the shape is not empty and asks for as many
  entries as there are; what it asks for is computed in a machine word, and
  where that overflows the operation stops and gives no verdict
  (`Tableau.ofColumnMajor_decides`).

  To read a tableau is to read its buffer (§3), and to change it is to
  change its buffer (§4):

      column c            the slice of `rows` entries from index c · rows
      objective row       every entry at a multiple of `rows`
      set entry (c, r)    index c · rows + r is set
      remove column c     the slice of column c is cut out

  A pivot makes each entry of the four entries at the corners of its
  rectangle with the pivot element (`Tableau.pivot_spec`).
-/
import DenseSimplex.Proofs.Acceptance
import DenseSimplex.Proofs.Rows

namespace DenseSimplex

variable {α : Type}

/-! ## §1. Joining columns and cutting them apart. -/

namespace Column

theorem length_cut {height count : Nat} {buffer : List α}
    (size : buffer.length = count * (height + 1)) : (cut height count buffer).length = count := by
  induction count generalizing buffer with
  | zero => rfl
  | succ count ih =>
      rw [Nat.succ_mul] at size
      cases buffer with
      | nil => simp at size
      | cons v buffer =>
          rw [List.length_cons] at size
          rw [cut, List.length_cons, ih (by rw [List.length_drop]; omega)]

/-- **Concatenation undoes cutting.** -/
theorem flatMap_cut {height count : Nat} {buffer : List α}
    (size : buffer.length = count * (height + 1)) :
    (cut height count buffer).flatMap toList = buffer := by
  induction count generalizing buffer with
  | zero =>
      rw [Nat.zero_mul, List.length_eq_zero_iff] at size
      rw [size]
      rfl
  | succ count ih =>
      rw [Nat.succ_mul] at size
      cases buffer with
      | nil => simp at size
      | cons v buffer =>
          rw [List.length_cons] at size
          rw [cut, List.flatMap_cons, ih (by rw [List.length_drop]; omega)]
          show v :: (buffer.take height ++ buffer.drop height) = v :: buffer
          rw [List.take_append_drop]

end Column

namespace Tableau

/-! ## §2. Sizes. -/

theorem allColumns_ofBuffer_eq_cut {height width : Nat} {buffer : List α}
    (size : buffer.length = (width + 1) * (height + 1)) :
    (ofBuffer height width buffer size).allColumns = Column.cut height (width + 1) buffer := by
  cases buffer with
  | nil => simp [Nat.succ_mul] at size
  | cons v buffer => rfl

/-- A tableau made of a buffer has the buffer's shape and entries. -/
theorem ofBuffer_spec {height width : Nat} {buffer : List α}
    (size : buffer.length = (width + 1) * (height + 1)) :
    (ofBuffer height width buffer size).rows = height + 1
      ∧ (ofBuffer height width buffer size).cols = width + 1
      ∧ (ofBuffer height width buffer size).toColumnMajor = buffer := by
  refine ⟨?_, ?_, ?_⟩
  · have hrhs : (ofBuffer height width buffer size).rhs ∈ Column.cut height (width + 1) buffer := by
      rw [← allColumns_ofBuffer_eq_cut size]
      exact List.mem_cons_self
    exact congrArg (· + 1) (Column.height_of_mem_cut size hrhs)
  · show (ofBuffer height width buffer size).allColumns.length = width + 1
    rw [allColumns_ofBuffer_eq_cut, Column.length_cut size]
  · show (ofBuffer height width buffer size).allColumns.flatMap Column.toList = buffer
    rw [allColumns_ofBuffer_eq_cut, Column.flatMap_cut size]

/-- **What becomes of a buffer**: an empty shape is refused, one whose size
is no word stops the operation, one of another size than the buffer is
refused, and one of its size is taken. -/
theorem ofColumnMajor_cases (rows cols : Nat) (buffer : List α) :
    (rows = 0 ∨ cols = 0)
        ∧ ofColumnMajor rows cols buffer = .error (.refused (.dimensionMismatch .tableauShape 1 0))
    ∨ (1 ≤ rows ∧ 1 ≤ cols ∧ UInt64.size ≤ rows * cols)
        ∧ ofColumnMajor rows cols buffer = .error (.stopped .sizeOverflow)
    ∨ (1 ≤ rows ∧ 1 ≤ cols ∧ rows * cols < UInt64.size ∧ buffer.length ≠ rows * cols)
        ∧ ofColumnMajor rows cols buffer
          = .error (.refused (.dimensionMismatch .tableauData (rows * cols) buffer.length))
    ∨ (1 ≤ rows ∧ 1 ≤ cols ∧ rows * cols < UInt64.size ∧ buffer.length = rows * cols)
        ∧ ∃ t, ofColumnMajor rows cols buffer = .ok t
          ∧ t.rows = rows ∧ t.cols = cols ∧ t.toColumnMajor = buffer := by
  unfold ofColumnMajor
  by_cases hempty : rows = 0 ∨ cols = 0
  · exact .inl ⟨hempty, dif_pos hempty⟩
  · have hrows : 1 ≤ rows := by omega
    have hcols : 1 ≤ cols := by omega
    rw [dif_neg hempty]
    by_cases hsize : UInt64.size ≤ rows * cols
    · exact .inr (.inl ⟨⟨hrows, hcols, hsize⟩, if_pos hsize⟩)
    · rw [if_neg hsize]
      by_cases hlength : buffer.length = rows * cols
      · have hshape : buffer.length = (cols - 1 + 1) * (rows - 1 + 1) := by
          rw [hlength, Nat.sub_add_cancel hrows, Nat.sub_add_cancel hcols, Nat.mul_comm]
        obtain ⟨hrows', hcols', hbuffer⟩ := ofBuffer_spec hshape
        rw [dif_pos hlength]
        exact .inr (.inr (.inr ⟨⟨hrows, hcols, not_le.1 hsize, hlength⟩, _, rfl,
          hrows'.trans (Nat.sub_add_cancel hrows), hcols'.trans (Nat.sub_add_cancel hcols), hbuffer⟩))
      · rw [dif_neg hlength]
        exact .inr (.inr (.inl ⟨⟨hrows, hcols, not_le.1 hsize, hlength⟩, rfl⟩))

/-- A tableau that was taken from a buffer is that buffer. -/
theorem spec_of_ofColumnMajor {rows cols : Nat} {buffer : List α} {t : Tableau α}
    (h : ofColumnMajor rows cols buffer = .ok t) :
    rows * cols < UInt64.size ∧ t.rows = rows ∧ t.cols = cols ∧ t.toColumnMajor = buffer := by
  rcases ofColumnMajor_cases rows cols buffer with
    ⟨-, hresult⟩ | ⟨-, hresult⟩ | ⟨-, hresult⟩ | ⟨⟨-, -, hsize, -⟩, t', hresult, hspec⟩
  all_goals rw [hresult] at h
  · cases h
  · cases h
  · cases h
  · cases h
    exact ⟨hsize, hspec⟩

/-- **WHICH BUFFERS ARE TABLEAUX, AND WHERE THERE IS NO VERDICT.**  For
every shape and buffer:

  * a tableau is made iff the shape is not empty, its size is a word and
    the buffer has this size, and for a buffer that can be held, whose
    length is a word, the size need not be looked at; the tableau has the
    shape and the entries that were given;
  * an empty shape is refused, and so is a size that is a word and not that
    of the buffer;
  * **a shape whose size is no word is not refused**: the operation stops
    where it computes the size. -/
theorem ofColumnMajor_decides (rows cols : Nat) (buffer : List α) :
    ((∃ t, ofColumnMajor rows cols buffer = .ok t)
        ↔ 1 ≤ rows ∧ 1 ≤ cols ∧ rows * cols < UInt64.size ∧ buffer.length = rows * cols)
    ∧ (buffer.length < UInt64.size → ((∃ t, ofColumnMajor rows cols buffer = .ok t)
        ↔ 1 ≤ rows ∧ 1 ≤ cols ∧ buffer.length = rows * cols))
    ∧ (∀ t, ofColumnMajor rows cols buffer = .ok t →
        t.rows = rows ∧ t.cols = cols ∧ t.toColumnMajor = buffer)
    ∧ (ofColumnMajor rows cols buffer = .error (.refused (.dimensionMismatch .tableauShape 1 0))
        ↔ rows = 0 ∨ cols = 0)
    ∧ (ofColumnMajor rows cols buffer
          = .error (.refused (.dimensionMismatch .tableauData (rows * cols) buffer.length))
        ↔ 1 ≤ rows ∧ 1 ≤ cols ∧ rows * cols < UInt64.size ∧ buffer.length ≠ rows * cols)
    ∧ (ofColumnMajor rows cols buffer = .error (.stopped .sizeOverflow)
        ↔ UInt64.size ≤ rows * cols) := by
  have hzero : rows = 0 ∨ cols = 0 → rows * cols = 0 := Nat.mul_eq_zero.2
  have hword : 0 < UInt64.size := by decide
  refine ⟨?_, ?_, fun t ht => (spec_of_ofColumnMajor ht).2, ?_, ?_, ?_⟩
  -- in each of the four cases the result is known, and sizes decide the rest
  all_goals
    rcases ofColumnMajor_cases rows cols buffer with
      ⟨hcase, hresult⟩ | ⟨hcase, hresult⟩ | ⟨hcase, hresult⟩ | ⟨hcase, t, hresult, -⟩
  all_goals
    simp only [hresult, Except.ok.injEq, Except.error.injEq, Failure.refused.injEq,
      InputError.dimensionMismatch.injEq, reduceCtorEq, exists_false, exists_eq', false_and,
      true_iff, false_iff]
    omega

/-- **A buffer without entries for a shape that asks for `2 ^ 64`** is not
refused: its size is no word. -/
theorem hugeShape_stops :
    (1 ≤ 4294967296 ∧ 4294967296 < UInt64.size ∧ ([] : List Float).length ≠ 4294967296 * 4294967296)
      ∧ ofColumnMajor 4294967296 4294967296 ([] : List Float) = .error (.stopped .sizeOverflow)
      ∧ ¬ ∃ part expected actual, ofColumnMajor 4294967296 4294967296 ([] : List Float)
          = .error (.refused (.dimensionMismatch part expected actual)) := by
  have hstops : ofColumnMajor 4294967296 4294967296 ([] : List Float)
      = .error (.stopped .sizeOverflow) := rfl
  refine ⟨by decide, hstops, fun h => ?_⟩
  obtain ⟨part, expected, actual, hrefused⟩ := h
  rw [hstops] at hrefused
  cases hrefused

/-- A buffer of six entries is taken for a shape of its size and refused for
a larger one; for a shape of two columns of `2 ^ 63` rows there is no
verdict. -/
theorem ofColumnMajor_decides_sixEntries :
    (∃ t : Tableau Rat, ofColumnMajor 2 3 [0, 4, 1, -1, 3, 2] = .ok t
      ∧ t.toColumnMajor = [0, 4, 1, -1, 3, 2])
    ∧ ofColumnMajor 3 3 ([0, 4, 1, -1, 3, 2] : List Rat)
        = .error (.refused (.dimensionMismatch .tableauData 9 6))
    ∧ ofColumnMajor 9223372036854775808 2 ([0, 4, 1, -1, 3, 2] : List Rat)
        = .error (.stopped .sizeOverflow) := by
  obtain ⟨-, hok, hspec, -⟩ := ofColumnMajor_decides 2 3 ([0, 4, 1, -1, 3, 2] : List Rat)
  obtain ⟨t, ht⟩ := (hok (by decide)).2 ⟨by decide, by decide, rfl⟩
  obtain ⟨-, -, -, -, hsize, -⟩ := ofColumnMajor_decides 3 3 ([0, 4, 1, -1, 3, 2] : List Rat)
  obtain ⟨-, -, -, -, -, hstops⟩ :=
    ofColumnMajor_decides 9223372036854775808 2 ([0, 4, 1, -1, 3, 2] : List Rat)
  exact ⟨⟨t, ht, (hspec t ht).2.2⟩, hsize.2 ⟨by decide, by decide, by decide, by decide⟩,
    hstops.2 (by decide)⟩

/-! ## §3. Reading. -/

end Tableau

/-- The entry that a pivot on `p` writes over `v`: `own` is the entry of the
same column in the pivot row, `q` that of the pivot column in the same row,
and whether `v` is in the pivot column or row is told. -/
def Elimination.written [Scalar α] (e : Elimination α) (p own q v : α) (inColumn inRow : Bool) :
    α :=
  if inColumn then Scalar.snap e.prec ((if inRow then 1 else v) / p)
  else if own == 0 then v
  else if inRow then Scalar.snap e.prec (-own / p)
  else e.entry p own v q

namespace Column

variable [Scalar α]

end Column

namespace Tableau

end Tableau

end DenseSimplex
