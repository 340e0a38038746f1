/-
  DenseSimplex.Timing
  ───────────────────
  **TIME SPENT, BY SECTION OF A STEP.**

  Times are natural numbers of nanoseconds.  A report shows seconds as the
  sum of the whole seconds and the rest, each converted on its own, and
  milliseconds as a thousand times that.
-/
import DenseSimplex.Number.Layout

namespace DenseSimplex

/-- The sections of a step that are timed. -/
inductive Section where
  | select
  | update
  | relabel
  | compact
  | report
  deriving DecidableEq, Repr

/-- Nanoseconds spent in each section. -/
structure Timers where
  select : Nat
  update : Nat
  relabel : Nat
  compact : Nat
  report : Nat
  deriving DecidableEq, Repr

namespace Timers

/-- No time spent. -/
def zero : Timers := ⟨0, 0, 0, 0, 0⟩

/-- Some more time in one section. -/
def add (t : Timers) (part : Section) (time : Nat) : Timers :=
  match part with
  | .select => { t with select := t.select + time }
  | .update => { t with update := t.update + time }
  | .relabel => { t with relabel := t.relabel + time }
  | .compact => { t with compact := t.compact + time }
  | .report => { t with report := t.report + time }

/-- The time of each section, in the order of the report. -/
def toList (t : Timers) : List Nat := [t.select, t.update, t.relabel, t.compact, t.report]

/-- The time of all sections. -/
def total (t : Timers) : Nat := t.select + t.update + t.relabel + t.compact + t.report

/-- Section by section. -/
def merge (t u : Timers) : Timers :=
  ⟨t.select + u.select, t.update + u.update, t.relabel + u.relabel, t.compact + u.compact,
    t.report + u.report⟩

end Timers

/-- A time in seconds. -/
def seconds {ω : Type} [ReportScalar ω] (time : Nat) : ω :=
  ReportScalar.ofNat (time / 1000000000) + ReportScalar.ofNat (time % 1000000000) / 1e9

/-- A time in milliseconds. -/
def milliseconds {ω : Type} [ReportScalar ω] (time : Nat) : ω := seconds time * 1e3

/-- A time in milliseconds, with three places. -/
def millisecondsText (time : Nat) : String :=
  let shown := Binary.fixedTo 3 (milliseconds time : Float)
  s!"{shown}ms"

namespace Timers

/-- The line that reports the times of all sections. -/
def text (t : Timers) : String :=
  let first := s!"select={millisecondsText t.select} update={millisecondsText t.update}"
  let second := s!"relabel={millisecondsText t.relabel} compact={millisecondsText t.compact}"
  s!"{first} {second} report={millisecondsText t.report}"

end Timers

end DenseSimplex
