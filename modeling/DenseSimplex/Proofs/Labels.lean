/-
  DenseSimplex.Proofs.Labels
  ──────────────────────────
  **LABELS ARE CONSERVED.**

  No variable appears, and none is lost unless a step says so.  Between any
  two moments of a history, for any arithmetic,

      labels before      =  eliminated variables  +  labels after,
      columns before     =  number eliminated  +  columns after,
      artificials before =  number eliminated  +  artificials after,

  the first line up to order.  The two numbers follow from the first line:
  labels are distinct and as many as rows and columns, rows are never lost,
  and only artificial variables are eliminated
  (`Reaches.width_add_length`, `Reaches.artificials_add_length`).
-/
import DenseSimplex.Proofs.LinearSystem

namespace DenseSimplex

namespace Dictionary

/-! ## §1. Counting labels. -/

section

variable {α : Type}

theorem WellFormed.length_labels {d : Dictionary α} (h : d.WellFormed) :
    d.labels.length = d.left.length + d.tableau.width := by
  unfold labels
  rw [List.length_append, h.right_length]

theorem countArtificial_append (ids ids' : List Int) :
    countArtificial (ids ++ ids') = countArtificial ids + countArtificial ids' :=
  List.countP_append

theorem countArtificial_eq_length {ids : List Int} (h : ∀ id ∈ ids, isArtificial id = true) :
    countArtificial ids = ids.length :=
  List.countP_eq_length.2 h

end

variable {ω τ : Type} [Scalar τ] [Element ω τ]

theorem Moves.length_left {s : Settings ω} {d d' : Dictionary τ} {r : StepResult τ}
    (h : d.Moves s r d') : d'.left.length = d.left.length := by
  cases h with
  | optimal => rfl
  | unbounded => rfl
  | pivoted q =>
      unfold Place.result
      split
      · exact List.length_set
      · exact List.length_set

section

variable {P : Settings ω → Prop} {d₀ d : Dictionary τ} {ids : List Int}

/-- No row is ever lost. -/
theorem Reaches.length_left (h : Reaches P d₀ ids d) : d.left.length = d₀.left.length := by
  induction h with
  | start => rfl
  | move _ _ hm ih => exact hm.length_left.trans ih

/-- **Every eliminated variable takes a column with it.** -/
theorem Reaches.width_add_length (h : Reaches P d₀ ids d) (hd : d₀.WellFormed) :
    d.tableau.width + ids.length = d₀.tableau.width := by
  have hlabels := h.labels_perm.length_eq
  have hleft := h.length_left
  rw [List.length_append, hd.length_labels, (h.wellFormed hd).length_labels] at hlabels
  omega

/-- **Every eliminated variable is one artificial variable less.** -/
theorem Reaches.artificials_add_length (h : Reaches P d₀ ids d) (hd : d₀.WellFormed) :
    d.artificials + ids.length = d₀.artificials := by
  rw [← hd.count, ← (h.wellFormed hd).count, countArtificial_perm h.labels_perm,
    countArtificial_append, countArtificial_eq_length h.isArtificial, Nat.add_comm]

end

/-! ## §2. One pivot. -/

/-- **What a pivot does to the labels**, by the variable that it reports as
eliminated.  Without one, labels change places and no count changes.  With
one, exactly that variable is gone: it was artificial, it was the variable
of the pivot row and of no other place, and a column went with it. -/
inductive Relabels (d : Dictionary τ) (c : Choice τ) : Option Int → Dictionary τ → Prop where
  | exchanged {d' : Dictionary τ} (labels : d.labels.Perm d'.labels)
      (width : d'.tableau.width = d.tableau.width) (count : d'.artificials = d.artificials) :
      Relabels d c none d'
  | eliminated {d' : Dictionary τ} {id : Int} (artificial : DenseSimplex.isArtificial id = true)
      (row : d.leftLabel c.row = .ok id) (once : d.labels.count id = 1)
      (labels : d.labels.Perm (id :: d'.labels)) (width : d'.tableau.width + 1 = d.tableau.width)
      (count : d'.artificials + 1 = d.artificials) : Relabels d c (some id) d'

theorem Moves.relabels {s : Settings ω} {d d' : Dictionary τ} {c : Choice τ} {e : Option Int}
    (h : d.Moves s (.pivoted c e) d') (hd : d.WellFormed) : d.Relabels c e d' := by
  have hreach : Reaches (fun _ : Settings ω => True) d (e.toList) d' := .single trivial h
  have hlabels := h.labels_perm
  have hartificial := h.isArtificial
  have hwidth := hreach.width_add_length hd
  have hcount := hreach.artificials_add_length hd
  -- what was eliminated, if anything, is the variable of the pivot row
  have hrow : ∀ id, e = some id → d.leftLabel c.row = .ok id := by
    intro id hid
    cases h with
    | pivoted q hq =>
        unfold Place.eliminated at hid
        split at hid
        · rw [← Option.some.inj hid, hq.row_col.1]
          exact labelAt_succ q.leaving_at
        · cases hid
  cases e with
  | none => exact .exchanged hlabels hwidth hcount
  | some id =>
      have hmem : id ∈ d.labels := hlabels.mem_iff.2 List.mem_cons_self
      exact .eliminated (hartificial id List.mem_cons_self) (hrow id rfl)
        (List.count_eq_one_of_mem hd.nodup hmem) hlabels hwidth hcount

end Dictionary

/-! ## §3. Histories. -/

/-- **LABELS ARE CONSERVED OVER EVERY HISTORY.**  From a valid dictionary,
for any arithmetic, settings and generators, between any moment of a
history and any later one:

  * the dictionary is well-formed, and has as many rows as at the start;
  * labels, columns and artificial variables are those of the earlier
    moment less the variables eliminated in between, so their count never
    grows, and stays zero once it is zero;
  * what was eliminated at any time was artificial and does not come back;
  * a further pivot exchanges two labels or eliminates exactly the variable
    that it reports. -/
theorem History.labels_conserved {ω τ : Type} [Scalar τ] [Element ω τ] {P : Settings ω → Prop}
    {d₀ d d' : Dictionary τ} {ids ids' : List Int} (hd : d₀.validate = .ok ())
    (h : History P d₀ ids d) (h' : History P d ids' d') :
    d'.WellFormed ∧ d'.left.length = d₀.left.length
      ∧ d.labels.Perm (ids' ++ d'.labels)
      ∧ d'.tableau.width + ids'.length = d.tableau.width
      ∧ d'.artificials + ids'.length = d.artificials
      ∧ (d.artificials = 0 → d'.artificials = 0)
      ∧ (∀ id ∈ ids ++ ids', isArtificial id = true ∧ id ∉ d'.labels)
      ∧ ∀ {γ : Type} [Source γ] (loop : Loop ω γ) {c : Choice τ} {e : Option Int},
          (loop.step d').2.result = .ok (.pivoted c e) →
            d'.Relabels c e (loop.step d').2.walk.dictionary := by
  have hwf₀ := (Dictionary.validate_eq_ok_iff.1 hd).1
  have hbefore := h.reaches hwf₀
  have hwf := hbefore.wellFormed hwf₀
  have hafter := h'.reaches hwf
  have hwhole := hbefore.trans hafter
  have hcount := hafter.artificials_add_length hwf
  refine ⟨hafter.wellFormed hwf, hwhole.length_left, hafter.labels_perm,
    hafter.width_add_length hwf, hcount, fun hzero => by omega, fun id hid => ⟨?_, ?_⟩, ?_⟩
  · exact hwhole.isArtificial id hid
  · exact hwhole.not_mem_labels hwf₀ id hid
  · intro γ _ loop c e hr
    exact (Walk.moves_of_step loop.settings _ (hafter.wellFormed hwf) hr).1.relabels
      (hafter.wellFormed hwf)

/-- Two artificial variables, one of them in a column. -/
def Dictionary.artificialColumn : Dictionary Rat where
  tableau := ⟨⟨0, [2, 3]⟩, [⟨1, [0, -1]⟩, ⟨-1, [-1, 2]⟩], by decide⟩
  left := [-1, 3]
  right := [-2, 1]
  artificials := 2

/-- First the artificial variable of the column enters the basis, then an
invocation eliminates the other one. -/
theorem History.labels_conserved_artificialColumn :
    ((Loop.exact.step Dictionary.artificialColumn).2.walk.dictionary.labels = [-1, -2, 3, 1])
      ∧ List.Perm [-1, -2, 3, 1]
          ([-1] ++ (Loop.exact.run (fun _ => false)
            (Loop.exact.step Dictionary.artificialColumn).2.walk.dictionary).dictionary.labels)
      ∧ (Loop.exact.run (fun _ => false)
          (Loop.exact.step Dictionary.artificialColumn).2.walk.dictionary).dictionary.artificials
            + 1 = 2 := by
  have hstep : (Loop.exact.step Dictionary.artificialColumn).2.result
      = .ok (.pivoted ⟨2, 1, -1, 3, 3, false, false⟩ none) := by cbv
  have hrun : (Loop.exact.run (fun _ => false)
      (Loop.exact.step Dictionary.artificialColumn).2.walk.dictionary).result
        = .ok ⟨.optimal, 1, 1, 1, 5⟩ := by cbv
  have hids : ([] ++ (Loop.exact.run (fun _ => false)
      (Loop.exact.step Dictionary.artificialColumn).2.walk.dictionary).journal.eliminations)
        = [-1] := by cbv
  have hlabels : (Loop.exact.step Dictionary.artificialColumn).2.walk.dictionary.labels
      = [-1, -2, 3, 1] := by cbv
  have hcount :
      (Loop.exact.step Dictionary.artificialColumn).2.walk.dictionary.artificials = 2 := by
    cbv
  have hbefore : History (fun _ : Settings Rat => True) Dictionary.artificialColumn []
      (Loop.exact.step Dictionary.artificialColumn).2.walk.dictionary :=
    .step .start Loop.exact trivial hstep
  obtain ⟨-, -, hperm, -, hfall, -⟩ := History.labels_conserved (by rfl) hbefore
    (.run .start Loop.exact trivial (fun _ => false) hrun)
  rw [hids] at hperm hfall
  rw [hlabels] at hperm
  rw [hcount] at hfall
  exact ⟨hlabels, hperm, hfall⟩

end DenseSimplex
