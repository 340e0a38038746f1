/-
  DenseSimplex.Step
  ─────────────────
  **ONE STEP OF THE PIVOT LOOP.**

  A step chooses a pivot, updates the tableau, exchanges the labels of the
  row and the column, and drops the column if an artificial variable moved
  into it:

      select  →  pivot  →  exchange labels  →  drop column

  With `checkInvariants` the right-hand sides are checked after the second
  stage and the whole dictionary after the last one.  A step that stops at
  a fault leaves behind what was done up to there, so it answers with a
  `Stepped`: where it left off, what happened, and its result.
-/
import DenseSimplex.Journal

namespace DenseSimplex

/-- Where a loop stands: the dictionary, the source of its coins, and the
number of pivots made so far. -/
structure Walk (τ γ : Type) where
  dictionary : Dictionary τ
  source : γ
  totalSteps : Nat

/-- The result of a step that ran to its end. -/
inductive StepResult (τ : Type) where
  /-- A pivot was made; the artificial variable that left the problem with
  it, if any. -/
  | pivoted (choice : Choice τ) (eliminated : Option Int)
  /-- No column improves the objective; nothing was changed. -/
  | optimal
  /-- Nothing bounds the column; nothing was changed. -/
  | unbounded (col : Nat)
  deriving DecidableEq, Repr

/-- What a step leaves behind. -/
structure Stepped (ω τ γ : Type) where
  walk : Walk τ γ
  journal : Journal ω τ
  result : Except (Fault τ) (StepResult τ)

namespace Dictionary

variable {τ : Type}

/-- Exchange the labels of a pivot, and drop its column if an artificial
variable moved into it; that variable comes back with the dictionary. -/
def relabelled (d : Dictionary τ) (row col : Nat) :
    Except (Fault τ) (Dictionary τ × Option Int) := do
  let (leaving, exchanged) ← d.exchangeLabels row col
  if isArtificial leaving then
    let dropped ← exchanged.dropColumn col
    pure (dropped, some leaving)
  else
    pure (exchanged, none)

/-- The event of an elimination, if there was one. -/
def eliminationEvents {ω : Type} (d : Dictionary τ) (col : Nat) :
    Option Int → Journal ω τ
  | some id => [.eliminated id col d.artificials]
  | none => []

end Dictionary

namespace Walk

variable {ω τ γ : Type} [Scalar τ] [Element ω τ]

/-- The row and the value of a right-hand side that a pivot drove below the
tolerance, where this is to be checked. -/
def violation (s : Settings ω) (t : Tableau τ) : Option (Nat × τ) :=
  if s.checkInvariants then t.violation (s.limits τ).prec else none

/-- The flaw of the dictionary after a pivot, where this is to be
checked. -/
def corruption (s : Settings ω) (d : Dictionary τ) : Option InputError :=
  if s.checkInvariants then
    match d.validate with
    | .ok () => none
    | .error e => some e
  else none

/-- The end of a pivot whose tableau is updated: what became of the labels,
the check of the whole dictionary, and the count. -/
def settle (s : Settings ω) (w : Walk τ γ) (c : Choice τ) (updated : Dictionary τ)
    (relabelled : Except (Fault τ) (Dictionary τ × Option Int)) : Stepped ω τ γ :=
  match relabelled with
  | .error fault => ⟨{ w with dictionary := updated }, [], .error fault⟩
  | .ok (after, eliminated) =>
      let journal := after.eliminationEvents c.col eliminated
      -- an elimination is told of even if the dictionary turns out flawed
      match corruption s after with
      | some cause =>
          ⟨{ w with dictionary := after }, journal, .error (.corrupted c.row c.col cause)⟩
      | none =>
          if w.totalSteps + 1 < UInt64.size then
            ⟨{ w with dictionary := after, totalSteps := w.totalSteps + 1 }, journal,
              .ok (.pivoted c eliminated)⟩
          else ⟨{ w with dictionary := after }, journal, .error .counterOverflow⟩

/-- Make a pivot that was chosen. -/
def make (s : Settings ω) (w : Walk τ γ) (c : Choice τ) : Stepped ω τ γ :=
  match w.dictionary.tableau.pivot (s.elimination τ) c.row c.col with
  | .error fault => ⟨w, [], .error fault⟩
  | .ok (_, tableau) =>
      -- from here on the tableau has changed, whatever else happens
      let updated := { w.dictionary with tableau := tableau }
      match violation s tableau with
      | some (k, v) =>
          ⟨{ w with dictionary := updated }, [.violated k v c.row c.col],
            .error (.negativeRhs k v c.row c.col)⟩
      | none => settle s w c updated (updated.relabelled c.row c.col)

/-- Choose a pivot and make it. -/
def step [Source γ] (s : Settings ω) (w : Walk τ γ) : Stepped ω τ γ :=
  match Selection.ofDictionary (s.limits τ) w.dictionary w.source with
  | (.noPivot, after) => ⟨{ w with source := after }, [], .ok .optimal⟩
  | (.unbounded col, after) => ⟨{ w with source := after }, [], .ok (.unbounded col)⟩
  | (.found choice, after) => make s { w with source := after } choice

end Walk

end DenseSimplex
