/-
  DenseSimplex.Tableau.Basic
  ──────────────────────────
  **THE DENSE SIMPLEX TABLEAU.**

  A tableau is read as a list of linear forms

      basic variable  =  rhs  +  Σ  column · nonbasic variable

  one for the objective (row 0) and one for each constraint row 1, 2, ….
  It is held by columns: column 0 is the right-hand side, columns 1, 2, …
  belong to the nonbasic variables.  A `Column` keeps its objective entry
  apart from its constraint entries, since almost every rule of the
  simplex method treats them differently; so a tableau has at least one
  row and one column by construction, and what remains to be asked is that
  all columns are equally high (`Tableau.uniform`).

  Every operation that changes a tableau goes through `mapColumns`, which
  replaces each column by one of the same height.

    * §2  building a tableau from rows or from a column-major buffer;
    * §3  reading it: entries, columns, rows, the buffer;
    * §4  changing single entries, whole columns, removing a column;
    * §5  feasibility, finiteness and distance.
-/
import DenseSimplex.Failure
import DenseSimplex.Memory

namespace DenseSimplex

/-! ## §1. Columns and tableaux. -/

/-- One column: its entry in the objective row and its entries in the
constraint rows, from row 1 on. -/
structure Column (α : Type) where
  objective : α
  entries : List α
  deriving DecidableEq, Repr

namespace Column

variable {α : Type}

/-- The number of constraint entries. -/
abbrev height (c : Column α) : Nat := c.entries.length

/-- All entries, the objective entry first. -/
def toList (c : Column α) : List α := c.objective :: c.entries

/-- The entry of a row; row 0 is the objective row. -/
def get? (c : Column α) (row : Nat) : Option α := c.toList[row]?

/-- Replace the entry of a row, if there is such a row. -/
def set (c : Column α) (row : Nat) (v : α) : Column α :=
  match row with
  | 0 => { c with objective := v }
  | k + 1 => { c with entries := c.entries.set k v }

theorem height_set (c : Column α) (row : Nat) (v : α) : (c.set row v).height = c.height := by
  cases row <;> simp [set, height]

/-- A column of zeros. -/
def zero [Zero α] (height : Nat) : Column α := ⟨0, List.replicate height 0⟩

/-- Cut a buffer into `count` columns of `height` constraint entries. -/
def cut (height : Nat) : Nat → List α → List (Column α)
  | count + 1, v :: buffer => ⟨v, buffer.take height⟩ :: cut height count (buffer.drop height)
  | _, _ => []

/-- A buffer of the right size is cut into columns of the right height. -/
theorem height_of_mem_cut {height count : Nat} {buffer : List α} {c : Column α}
    (size : buffer.length = count * (height + 1)) (h : c ∈ cut height count buffer) :
    c.height = height := by
  induction count generalizing buffer with
  | zero => simp [cut] at h
  | succ count ih =>
      rw [Nat.succ_mul] at size
      cases buffer with
      | nil => simp [cut] at h
      | cons v buffer =>
          simp only [List.length_cons] at size
          rcases List.mem_cons.1 h with rfl | h
          · simp only [Column.height, List.length_take]; omega
          · exact ih (by simp only [List.length_drop]; omega) h

end Column

/-- A tableau: the right-hand side and the columns of the nonbasic
variables, all of one height. -/
structure Tableau (α : Type) where
  rhs : Column α
  columns : List (Column α)
  uniform : ∀ c ∈ columns, c.height = rhs.height

namespace Tableau

variable {α : Type}

/-- The number of constraint rows. -/
def height (t : Tableau α) : Nat := t.rhs.height

/-- The number of variable columns. -/
def width (t : Tableau α) : Nat := t.columns.length

/-- The number of rows, the objective row included. -/
def rows (t : Tableau α) : Nat := t.height + 1

/-- The number of columns, the right-hand side included. -/
def cols (t : Tableau α) : Nat := t.width + 1

/-! ## §2. Building a tableau. -/

/-- The tableau of a column-major buffer of the right size. -/
def ofBuffer (height width : Nat) (buffer : List α)
    (size : buffer.length = (width + 1) * (height + 1)) : Tableau α where
  rhs :=
    ⟨buffer.head (by intro h; simp [h, Nat.succ_mul] at size), buffer.tail.take height⟩
  columns := Column.cut height width (buffer.drop (height + 1))
  uniform := by
    intro c hc
    rw [Nat.succ_mul] at size
    rw [Column.height_of_mem_cut (by simp only [List.length_drop]; omega) hc]
    simp only [Column.height, List.length_take, List.length_tail]
    omega

/-- A tableau of zeros. -/
def zeros [Zero α] (rows cols : Nat) : Except (Fault α) (Tableau α) :=
  if rows = 0 ∨ cols = 0 then .error .emptyTableau
  else if !canHold (rows * cols) numberBytes then .error .sizeOverflow
  else .ok {
    rhs := Column.zero (rows - 1)
    columns := List.replicate (cols - 1) (Column.zero (rows - 1))
    uniform := by intro c hc; rw [List.eq_of_mem_replicate hc] }

/-- A tableau from a buffer that holds one column after the other.  The
number of entries that the shape asks for is computed in a 64-bit word, and
the operation stops where it does not fit. -/
def ofColumnMajor (rows cols : Nat) (buffer : List α) : Except (Failure α) (Tableau α) :=
  if hs : rows = 0 ∨ cols = 0 then .error (.refused (.dimensionMismatch .tableauShape 1 0))
  else if UInt64.size ≤ rows * cols then .error (.stopped .sizeOverflow)
  else if h : buffer.length = rows * cols then
    .ok (ofBuffer (rows - 1) (cols - 1) buffer (by
      rw [h, Nat.sub_add_cancel (by omega), Nat.sub_add_cancel (by omega), Nat.mul_comm]))
  else .error (.refused (.dimensionMismatch .tableauData (rows * cols) buffer.length))

/-- The entries of equally long rows, column after column. -/
def transposed (cols : Nat) (rows : List (List α)) : List α :=
  (List.range cols).flatMap fun c => rows.filterMap (·[c]?)

/-- The length of the first row, which is the number of columns that rows
are taken to have. -/
def firstLength (rows : List (List α)) : Nat := (rows.head?.map List.length).getD 0

/-- A tableau written out row by row.  The first row gives the number of
columns, and room for as many rows of this length is asked for before the
other rows are looked at.  Rows that all have it take that room themselves,
so for them it is there.  For others the operation stops if there is no
such room; if there is, the first row of another length is refused. -/
def ofRows (rows : List (List α)) : Except (Failure α) (Tableau α) :=
  let cols := firstLength rows
  match rows.find? (fun row => row.length != cols) with
  | some row =>
      if !canHold (rows.length * cols) numberBytes then .error (.stopped .sizeOverflow)
      else .error (.refused (
        if cols = 0 then .dimensionMismatch .tableauShape 1 0
        else .dimensionMismatch .tableauRow cols row.length))
  | none => ofColumnMajor rows.length cols (transposed cols rows)

/-! ## §3. Reading a tableau. -/

/-- Every column, the right-hand side first. -/
def allColumns (t : Tableau α) : List (Column α) := t.rhs :: t.columns

/-- The column at an index; column 0 is the right-hand side. -/
def column? (t : Tableau α) (col : Nat) : Option (Column α) := t.allColumns[col]?

/-- Every column of a tableau is as high as the tableau. -/
theorem height_of_column? {t : Tableau α} {col : Nat} {c : Column α}
    (h : t.column? col = some c) : c.height = t.height := by
  cases col with
  | zero => simp [column?, allColumns] at h; rw [← h]; rfl
  | succ j =>
      simp only [column?, allColumns, List.getElem?_cons_succ] at h
      exact t.uniform c (List.mem_of_getElem? h)

/-- The entry at a column and a row. -/
def entry? (t : Tableau α) (col row : Nat) : Option α := (t.column? col).bind (·.get? row)

/-- The entry at a column and a row, which must exist. -/
def get (t : Tableau α) (col row : Nat) : Except (Fault α) α :=
  match t.entry? col row with
  | some v => .ok v
  | none => .error (.noEntry col row)

/-- The entries of a column, which must exist. -/
def column (t : Tableau α) (col : Nat) : Except (Fault α) (List α) :=
  match t.column? col with
  | some c => .ok c.toList
  | none => .error (.noColumn col)

/-- The value of the objective when all nonbasic variables are zero. -/
def objectiveValue (t : Tableau α) : α := t.rhs.objective

/-- The objective row. -/
def objectiveRow (t : Tableau α) : List α := t.allColumns.map Column.objective

/-- The buffer that holds one column after the other. -/
def toColumnMajor (t : Tableau α) : List α := t.allColumns.flatMap Column.toList

/-! ## §4. Changing a tableau. -/

/-- Replace each column by one of the same height, told its index. -/
def mapColumns (t : Tableau α) (f : Nat → Column α → Column α)
    (h : ∀ j c, c.height = t.height → (f j c).height = t.height) : Tableau α where
  rhs := f 0 t.rhs
  columns := t.columns.mapIdx fun j c => f (j + 1) c
  uniform := by
    intro c hc
    obtain ⟨j, hj, rfl⟩ := List.mem_mapIdx.1 hc
    rw [h _ _ rfl]
    exact h _ _ (t.uniform _ (List.getElem_mem hj))

/-- The rows of the right-hand side, which every column has. -/
theorem height_mapColumns (t : Tableau α) (f : Nat → Column α → Column α)
    (h : ∀ j c, c.height = t.height → (f j c).height = t.height) :
    (t.mapColumns f h).height = t.height := h 0 _ rfl

theorem width_mapColumns (t : Tableau α) (f : Nat → Column α → Column α)
    (h : ∀ j c, c.height = t.height → (f j c).height = t.height) :
    (t.mapColumns f h).width = t.width := by simp [mapColumns, width]

/-- Replacing columns one by one is pointwise. -/
theorem column?_mapColumns (t : Tableau α) (f : Nat → Column α → Column α)
    (h : ∀ j c, c.height = t.height → (f j c).height = t.height) (j : Nat) :
    (t.mapColumns f h).column? j = (t.column? j).map (f j) := by
  cases j <;> simp [mapColumns, column?, allColumns]

/-- Replace one entry, which must exist. -/
def set (t : Tableau α) (col row : Nat) (v : α) : Except (Fault α) (Tableau α) :=
  if t.cols ≤ col ∨ t.rows ≤ row then .error (.noEntry col row)
  else .ok (t.mapColumns (fun j c => if j = col then c.set row v else c) (by
    intro j c hc
    split
    · rw [Column.height_set, hc]
    · exact hc))

/-- Replace the entries of a whole column by as many others. -/
def setColumn (t : Tableau α) (col : Nat) (values : List α) : Except (Fault α) (Tableau α) :=
  match values with
  | [] => .error (.noColumn col)
  | v :: entries =>
      if h : entries.length = t.height ∧ col < t.cols then
        .ok (t.mapColumns (fun j c => if j = col then ⟨v, entries⟩ else c) (by
          intro j c hc
          split
          · exact h.1
          · exact hc))
      else .error (.noColumn col)

/-- Remove a variable column; later columns move up by one. -/
def removeColumn (t : Tableau α) (col : Nat) : Except (Fault α) (Tableau α) :=
  if 1 ≤ col ∧ col < t.cols then
    .ok { t with
      columns := t.columns.eraseIdx (col - 1)
      uniform := fun c hc => t.uniform c (List.mem_of_mem_eraseIdx hc) }
  else .error (.noColumn col)

/-! ## §5. Feasibility, finiteness, distance. -/

variable [Scalar α]

/-- The smallest right-hand side of a constraint row. -/
def minRhs (t : Tableau α) : Option α :=
  match t.rhs.entries with
  | [] => none
  | v :: vs => some (vs.foldl Scalar.lesser v)

/-- Whether a right-hand side is below `-prec`, or not a number. -/
def isViolated (prec v : α) : Bool := decide (v < -prec) || Scalar.isNotNumber v

/-- The first constraint row whose right-hand side is below `-prec` or not
a number. -/
def checkFeasible (t : Tableau α) (prec : α) : Option Nat :=
  (t.rhs.entries.findIdx? (isViolated prec)).map (· + 1)

/-- The first violated constraint row with its right-hand side. -/
def violation (t : Tableau α) (prec : α) : Option (Nat × α) :=
  (t.checkFeasible prec).bind fun k => (t.entry? 0 k).map fun v => (k, v)

/-- Column and row of the first entry, column by column, that is infinite
or not a number. -/
def findNonFinite (t : Tableau α) : Option (Nat × Nat) :=
  (t.toColumnMajor.findIdx? fun v => !Scalar.isFinite v).map fun i => (i / t.rows, i % t.rows)

/-- The larger of a bound and the distance of two entries; a distance that
is not a number is passed over. -/
def widerGap (bound : α) (pair : α × α) : α :=
  let gap := Scalar.magnitude (pair.1 - pair.2)
  if bound < gap then gap else bound

/-- The largest distance of two corresponding entries of tableaux of one
shape. -/
def maxAbsDiff (t u : Tableau α) : Except (Fault α) α :=
  if t.rows = u.rows ∧ t.cols = u.cols then
    .ok ((t.toColumnMajor.zip u.toColumnMajor).foldl widerGap 0)
  else .error .shapeMismatch

/-- Whether two tableaux have the same shape and equal entries, in the
scalar's own sense of equality. -/
def isEqual (t u : Tableau α) : Bool :=
  t.rows == u.rows && t.cols == u.cols && t.toColumnMajor == u.toColumnMajor

end Tableau

end DenseSimplex
