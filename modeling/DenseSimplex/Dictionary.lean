/-
  DenseSimplex.Dictionary
  ───────────────────────
  **A TABLEAU WITH THE NAMES OF ITS VARIABLES.**

  A dictionary says which variable each row and each column of a tableau
  belongs to: row `k` reads

      x_(left k)  =  rhs k  +  Σ_r  entry r k · x_(right r).

  Variables are integers; the negative ones are artificial and exist in
  phase 1 only.  `artificials` counts those still present.

  A dictionary is plain data.  What a well-formed one satisfies is written
  once, as the checks of `Dictionary.validate`, which names the first
  condition that fails:

      sizes of left and right, no label twice, the declared count of
      artificial variables is right and at most the number of columns,
      every entry is finite.

    * `Dictionary.ofParts`         the only checked way in;
    * `Dictionary.exchangeLabels`  what a pivot does to the labels;
    * `Dictionary.dropColumn`      forgetting an artificial variable that
                                   has left the basis.
-/
import DenseSimplex.Tableau.Pivot

namespace DenseSimplex

/-- A tableau, the variable of each constraint row, the variable of each
column, and the number of artificial variables present. -/
structure Dictionary (α : Type) where
  tableau : Tableau α
  left : List Int
  right : List Int
  artificials : Nat

/-- The two phases: artificial variables are still present, or the basis is
feasible and the true objective is optimised. -/
inductive Phase where
  | one
  | two
  deriving DecidableEq, Repr

namespace Dictionary

variable {α : Type}

/-- All labels, those of the rows first. -/
def labels (d : Dictionary α) : List Int := d.left ++ d.right

/-- The phase a dictionary is in. -/
def phase (d : Dictionary α) : Phase := if d.artificials = 0 then .two else .one

/-- The current objective value. -/
def objective (d : Dictionary α) : α := d.tableau.objectiveValue

/-- All labels in increasing order. -/
def sortedLabels (d : Dictionary α) : List Int := d.labels.mergeSort fun a b => decide (a ≤ b)

/-! ## §1. Well-formedness. -/

/-- The first element of a list that occurs before it as well, among the
elements seen or in the list. -/
def firstRepeated (seen : List Int) : List Int → Option Int
  | [] => none
  | id :: ids => if id ∈ seen then some id else firstRepeated (id :: seen) ids

/-- The number of artificial variables among some labels. -/
def countArtificial (labels : List Int) : Nat := labels.countP isArtificial

/-- Whether a dictionary is well-formed; the first condition that fails is
named. -/
def validate [Scalar α] (d : Dictionary α) : Except InputError Unit :=
  if d.left.length ≠ d.tableau.height then
    .error (.dimensionMismatch .leftLabels d.tableau.height d.left.length)
  else if d.right.length ≠ d.tableau.width then
    .error (.dimensionMismatch .rightLabels d.tableau.width d.right.length)
  else
    match firstRepeated [] d.labels with
    | some id => .error (.duplicateLabel id)
    | none =>
        if countArtificial d.labels ≠ d.artificials then
          .error (.artificialCount d.artificials (countArtificial d.labels))
        else if d.tableau.width < d.artificials then
          .error (.tooManyArtificial d.artificials d.tableau.width)
        else
          match d.tableau.findNonFinite with
          | some (col, row) => .error (.nonFinite col row)
          | none => .ok ()

/-- A dictionary from its parts, if they form one. -/
def ofParts [Scalar α] (tableau : Tableau α) (left right : List Int) (artificials : Nat) :
    Except InputError (Dictionary α) :=
  let d : Dictionary α := ⟨tableau, left, right, artificials⟩
  match d.validate with
  | .ok () => .ok d
  | .error e => .error e

/-! ## §2. Labels. -/

/-- The variable at an index of a list of labels, counted from 1. -/
def labelAt (labels : List Int) (index : Nat) : Except (Fault α) Int :=
  match index with
  | 0 => .error (.noLabel 0)
  | k + 1 =>
      match labels[k]? with
      | some id => .ok id
      | none => .error (.noLabel index)

/-- The variable of a constraint row. -/
def leftLabel (d : Dictionary α) (row : Nat) : Except (Fault α) Int := labelAt d.left row

/-- The variable of a column. -/
def rightLabel (d : Dictionary α) (col : Nat) : Except (Fault α) Int := labelAt d.right col

/-- Exchange the variables of a row and a column; the one that left the
row comes back with the new dictionary. -/
def exchangeLabels (d : Dictionary α) (row col : Nat) :
    Except (Fault α) (Int × Dictionary α) := do
  let leaving ← d.leftLabel row
  let entering ← d.rightLabel col
  pure (leaving, { d with
    left := d.left.set (row - 1) entering
    right := d.right.set (col - 1) leaving })

/-- Remove a column that holds an artificial variable, together with its
label and its count. -/
def dropColumn (d : Dictionary α) (col : Nat) : Except (Fault α) (Dictionary α) := do
  let id ← d.rightLabel col
  if !isArtificial id then throw (.structuralColumn col id)
  if d.artificials = 0 then throw .noArtificial
  let tableau ← d.tableau.removeColumn col
  pure ⟨tableau, d.left, d.right.eraseIdx (col - 1), d.artificials - 1⟩

end Dictionary

end DenseSimplex
