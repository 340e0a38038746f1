/-
  DenseSimplex.Bench.SummaryText
  ──────────────────────────────
  **SUMMARIES AS JSON TEXTS.**

  A summary is written as an object of seven members, one a line.  It is
  read from such an object, its members in any order, each exactly once
  and others ignored, or from an array of the seven values in order.

  Numbers are written with the shortest digits that read back to the
  nearest double.  They are read with less care: as many digits as fit a
  64-bit word are taken in, the word is converted, and it is multiplied or
  divided by a power of ten (`JsonNumber.toFloat?`), so that a long row of
  digits can come back as a neighbour of the double it was written from.
-/
import DenseSimplex.Bench.Summary
import DenseSimplex.Bench.Json

namespace DenseSimplex

/-! ## §1. Writing. -/

/-- Numbers of a summary: positional from the fifth place after the point
to the sixteenth digit before it, always with a point, otherwise with an
exponent that has a sign; the even decimal on a tie. -/
def Layout.json : Layout := ⟨.even, fun e => decide (-5 ≤ e ∧ e ≤ 15), true, true⟩

/-- The text of a number of a summary; JSON has none for what is not
finite. -/
def jsonFloatText (v : Float) : String :=
  if v.isFinite then Binary.signedText (Layout.json.magnitudeText .binary64) v else "null"

namespace Summary

/-- The lines of the members of a summary. -/
def memberLines (s : Summary Float) : List String :=
  [s!"  \"total_ms\": {jsonFloatText s.totalMs},",
   s!"  \"select_ms\": {jsonFloatText s.selectMs},",
   s!"  \"update_ms\": {jsonFloatText s.updateMs},",
   s!"  \"compact_ms\": {jsonFloatText s.compactMs},",
   s!"  \"total_steps\": {s.totalSteps},",
   s!"  \"invocations\": {s.invocations},",
   s!"  \"trials\": {s.trials}"]

/-- The text of a summary. -/
def toText (s : Summary Float) : String :=
  "\n".intercalate ("\x7b" :: s.memberLines ++ ["\x7d"])

end Summary

/-! ## §2. Reading numbers. -/

namespace JsonNumber

/-- Take digits into a word as long as they fit; the word and the digits
that are left. -/
def absorb (word : Nat) : List Char → Nat × List Char
  | [] => (word, [])
  | c :: cs =>
      let next := 10 * word + digitsValue [c]
      if next < UInt64.size then absorb next cs else (word, c :: cs)

/-- The digits that fit a word, and the power of ten they are multiplied
by: digits before the point that are left over raise it, digits after the
point that were taken in lower it. -/
def decimal (n : JsonNumber) : Decimal :=
  let fraction := n.fraction.getD []
  let (word, surplus) := absorb 0 n.whole
  let (word, unused) := absorb word fraction
  ⟨word, surplus.length - (fraction.length - unused.length) + n.exponent.getD 0⟩

/-- A power of ten as a double. -/
def powerOfTen (e : Nat) : Float := Float.ofScientific 1 false e

/-- A double times a power of ten with one rounding, or two for the powers
below the range of the doubles; a value beyond the range is refused. -/
def scaled (v : Float) (e : Int) : Option Float :=
  if v == 0.0 then some v
  else if 308 < e then none
  else if 0 ≤ e then
    let product := v * powerOfTen e.toNat
    if product.isFinite then some product else none
  else if -308 ≤ e then some (v / powerOfTen (-e).toNat)
  else if -616 ≤ e then some (v / powerOfTen 308 / powerOfTen (-e - 308).toNat)
  else some 0.0

/-- The double that a number is read as. -/
def toFloat? (n : JsonNumber) : Option Float :=
  let d := n.decimal
  (scaled (Float.ofNat d.digits) d.exponent).map fun v => if n.negative then -v else v

/-- The 64-bit natural number that a number is read as; it has no sign, no
point and no exponent. -/
def toWord? (n : JsonNumber) : Option Nat :=
  if n.negative ∨ n.fraction.isSome ∨ n.exponent.isSome then none
  else
    let value := digitsValue n.whole
    if value < UInt64.size then some value else none

end JsonNumber

/-! ## §3. Reading summaries. -/

namespace Json

/-- A value as a double. -/
def float? : Json → Option Float
  | .number n => n.toFloat?
  | _ => none

/-- A value as a 64-bit natural number. -/
def word? : Json → Option Nat
  | .number n => n.toWord?
  | _ => none

/-- The value of the member with a name, if there is exactly one. -/
def member? (members : List (Option (List Char) × Json)) (name : String) : Option Json :=
  match members.filter fun m => m.1 == some name.toList with
  | [m] => some m.2
  | _ => none

end Json

namespace Summary

/-- The names of the members, in order. -/
def memberNames : List String :=
  ["total_ms", "select_ms", "update_ms", "compact_ms", "total_steps", "invocations", "trials"]

/-- The summary of seven values in order. -/
def ofValues? : List Json → Option (Summary Float)
  | [total, select, update, compact, steps, invocations, trials] => do
      pure ⟨← total.float?, ← select.float?, ← update.float?, ← compact.float?, ← steps.word?,
        ← invocations.word?, ← trials.word?⟩
  | _ => none

/-- The summary of an object or an array; a name that no character string
can hold is refused even where its member would be ignored. -/
def ofJson? : Json → Option (Summary Float)
  | .array items => ofValues? items
  | .object members =>
      if members.all (·.1.isSome) then
        (memberNames.mapM (Json.member? members)).bind ofValues?
      else none
  | _ => none

/-- The summary of a text. -/
def ofText? (text : String) : Option (Summary Float) := (Json.parse? text.toList).bind ofJson?

end Summary

end DenseSimplex
