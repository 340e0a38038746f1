/-
  DenseSimplex.Tableau.Pivot
  ──────────────────────────
  **ONE PIVOT: EXCHANGING A BASIC AND A NONBASIC VARIABLE.**

  Pivoting on the element `p` in row `l` of column `r` solves row `l` for
  the variable of column `r` and substitutes it into the other rows.  By
  columns:

      column j ≠ r, with a = column j at row l:
          row k ≠ l   v  ↦  v - (column r at row k) · a / p
          row l       a  ↦  -a / p
      column r:
          row k ≠ l   v  ↦  v / p
          row l       p  ↦  1 / p

  The right-hand side is a column like any other.  A column with `a = 0`
  is left alone.  The product and the difference can be computed with a
  fused multiply-add of `-a / p`, and every new entry of magnitude at most
  `prec` becomes exactly zero (`Scalar.snap`).
-/
import DenseSimplex.Tableau.Basic

namespace DenseSimplex

/-! ## §1. The new entries. -/

/-- How entries are updated: the magnitude up to which they become zero,
and whether products are fused with their difference. -/
structure Elimination (α : Type) where
  prec : α
  fused : Bool
  deriving Repr

namespace Elimination

variable {α : Type} [Scalar α]

/-- The new entry of a row other than the pivot row: `v` is the old one,
`p` the entry of the pivot column in its row and `own` the old entry of the
same column in the pivot row. -/
def entry (e : Elimination α) (pivot own v p : α) : α :=
  Scalar.snap e.prec (if e.fused then Scalar.fma p (-own / pivot) v else v - p * own / pivot)

end Elimination

namespace Column

variable {α : Type}

/-- Entry by entry with another column. -/
def zipWith (f : α → α → α) (c d : Column α) : Column α :=
  ⟨f c.objective d.objective, List.zipWith f c.entries d.entries⟩

/-- Entry by entry. -/
def map (f : α → α) (c : Column α) : Column α := ⟨f c.objective, c.entries.map f⟩

theorem height_zipWith (f : α → α → α) {c d : Column α} (h : c.height = d.height) :
    (zipWith f c d).height = c.height := by simp_all [zipWith, height]

theorem height_map (f : α → α) (c : Column α) : (c.map f).height = c.height := by
  simp [map, height]

variable [Scalar α]

/-- A column other than the pivot column after the pivot. -/
def eliminated (e : Elimination α) (pivot : α) (row : Nat) (pivotColumn c : Column α) :
    Column α :=
  match c.get? row with
  | none => c
  | some own =>
      if own == 0 then c
      else (zipWith (e.entry pivot own) c pivotColumn).set row (Scalar.snap e.prec (-own / pivot))

/-- The pivot column after the pivot. -/
def exchanged (e : Elimination α) (pivot : α) (row : Nat) (c : Column α) : Column α :=
  (c.map fun v => Scalar.snap e.prec (v / pivot)).set row (Scalar.snap e.prec (1 / pivot))

theorem height_eliminated (e : Elimination α) (pivot : α) (row : Nat) {pivotColumn c : Column α}
    (h : c.height = pivotColumn.height) :
    (eliminated e pivot row pivotColumn c).height = c.height := by
  unfold eliminated
  split
  · rfl
  · split
    · rfl
    · rw [height_set, height_zipWith _ h]

theorem height_exchanged (e : Elimination α) (pivot : α) (row : Nat) (c : Column α) :
    (exchanged e pivot row c).height = c.height := by
  rw [exchanged, height_set, height_map]

end Column

/-! ## §2. The pivot. -/

namespace Tableau

variable {α : Type} [Scalar α]

/-- The tableau after pivoting on an element of one of its columns. -/
def pivoted (t : Tableau α) (e : Elimination α) (row col : Nat) (pivot : α)
    (pivotColumn : Column α) (h : pivotColumn.height = t.height) : Tableau α :=
  t.mapColumns (fun j c =>
      if j = col then Column.exchanged e pivot row c
      else Column.eliminated e pivot row pivotColumn c) (by
    intro j c hc
    split
    · rw [Column.height_exchanged, hc]
    · rw [Column.height_eliminated _ _ _ (hc.trans h.symm), hc])

/-- Pivot on the element of a constraint row and a variable column; the
element comes back with the new tableau.  Other places, an element that is
zero and one that is not finite are refused. -/
def pivot (t : Tableau α) (e : Elimination α) (row col : Nat) :
    Except (Fault α) (α × Tableau α) :=
  if row = 0 ∨ t.rows ≤ row then .error (.pivotRow row)
  else
    match h : t.column? col with
    | none => .error (.pivotColumn col)
    | some pivotColumn =>
        if col = 0 then .error (.pivotColumn col)
        else
          match pivotColumn.get? row with
          | none => .error (.noEntry col row)
          | some element =>
              if element == 0 || !Scalar.isFinite element then .error (.badPivot element row col)
              else .ok (element,
                t.pivoted e row col element pivotColumn (height_of_column? h))

end Tableau

end DenseSimplex
