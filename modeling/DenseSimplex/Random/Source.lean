/-
  DenseSimplex.Random.Source
  ──────────────────────────
  **SOURCES OF RANDOM WORDS, AND WHAT IS DRAWN FROM THEM.**

  A source hands out 64-bit words one at a time and is a plain value: to
  draw is to get a word and the source that comes after it.  Everything
  random in the library is one of four draws:

    * `drawCoin`     heads or tails, one word;
    * `drawChance`   true with a given probability; certainty draws nothing;
    * `drawBetween`  a natural number between two bounds, both included,
                     each equally likely;
    * `drawReal`     a number from a half-open interval.

  The last two reject words that would bias the answer or leave the
  interval and try again.  An attempt fails less than half of the time, so
  a bound on the number of attempts is never felt; it makes the draws
  total, and the lower bound answers where it is reached.
-/
import DenseSimplex.Number.Scalar

namespace DenseSimplex

/-- A source of uniformly distributed 64-bit words. -/
class Source (γ : Type) where
  draw : γ → UInt64 × γ

/-- An endless row of words is a source: the words come in order. -/
instance : Source (Nat → UInt64) where
  draw words := (words 0, fun n => words (n + 1))

/-- A draw that was asked for something it cannot give. -/
inductive Misdraw where
  | emptyRange
  | unboundedRange
  | badProbability
  | tooMany
  deriving DecidableEq, Repr

namespace Misdraw

/-- What went wrong. -/
def message : Misdraw → String
  | .emptyRange => "cannot draw from an empty range"
  | .unboundedRange => "cannot draw from a range without finite bounds"
  | .badProbability => "a probability lies between zero and one"
  | .tooMany => "more values were asked for than can be held"

end Misdraw

namespace Source

variable {γ : Type} [Source γ]

/-! ## §1. Coins and chances. -/

/-- A fair coin: heads for the lower half of the words. -/
def drawCoin (source : γ) : Bool × γ :=
  let (word, after) := draw source
  (decide (word.toNat < UInt64.size / 2), after)

/-- True with probability `p`: a word is compared with `p` of all words.
The certain event draws nothing. -/
def drawChance {ω : Type} [ReportScalar ω] (p : ω) (source : γ) : Except Misdraw (Bool × γ) :=
  if p == 1 then .ok (true, source)
  else if 0 ≤ p ∧ p < 1 then
    let (word, after) := draw source
    .ok (decide (word.toNat < ReportScalar.truncate (p * ReportScalar.ofNat UInt64.size)), after)
  else .error .badProbability

/-! ## §2. Ranges. -/

/-- How often a draw that rejects words tries again. -/
def attempts : Nat := 256

/-- A number below `size`, from the high half of a double-width product; a
word whose low half lies beyond `zone` is rejected. -/
def drawBelow (size zone : Nat) : Nat → γ → Nat × γ
  | 0, source => (0, source)
  | tries + 1, source =>
      let (word, after) := draw source
      let product := word.toNat * size
      if product % UInt64.size ≤ zone then (product / UInt64.size, after)
      else drawBelow size zone tries after

/-- A natural number in `low, …, high`, for words `low` and `high`.  The
zone of accepted low halves is the largest multiple of the size of the
range by a power of two that fits a word. -/
def drawBetween (low high : Nat) (source : γ) : Except Misdraw (Nat × γ) :=
  if high < low then .error .emptyRange
  else
    let size := high - low + 1
    -- every word is an answer, and none is rejected
    if size = UInt64.size then
      let (word, after) := draw source
      .ok (word.toNat, after)
    else
      let zone := size <<< (63 - size.log2) - 1
      let (offset, after) := drawBelow size zone attempts source
      .ok (low + offset, after)

/-- What is drawn below a positive size is below it. -/
theorem drawBelow_lt {size : Nat} (h : 0 < size) (zone tries : Nat) (source : γ) :
    (drawBelow size zone tries source).1 < size := by
  induction tries generalizing source with
  | zero => exact h
  | succ tries ih =>
      unfold drawBelow
      dsimp only
      split
      · rw [Nat.div_lt_iff_lt_mul (by decide), Nat.mul_comm size]
        exact Nat.mul_lt_mul_of_pos_right (draw source).1.toNat_lt h
      · exact ih _

/-- A range that is not empty can be drawn from, and what is drawn is not
above it. -/
theorem exists_drawBetween {low high : Nat} (h : low ≤ high) (source : γ) :
    ∃ n after, drawBetween low high source = .ok (n, after) ∧ n ≤ high := by
  unfold drawBetween
  rw [if_neg (Nat.not_lt.2 h)]
  dsimp only
  split
  next hall =>
    have hword := (draw source).1.toNat_lt
    refine ⟨_, _, rfl, ?_⟩
    simp only [UInt64.size] at hall
    omega
  next =>
    have hsize : 0 < high - low + 1 := Nat.succ_pos _
    have hoffset := drawBelow_lt hsize
      ((high - low + 1) <<< (63 - (high - low + 1).log2) - 1) attempts source
    exact ⟨_, _, rfl, by omega⟩

/-- A number of the interval from `low` to `high` without `high` itself:
the upper 52 bits of a word as a fraction, scaled and shifted.  A result
that rounds up to `high` is rejected. -/
def drawScaled {ω : Type} [ReportScalar ω] (low high scale : ω) : Nat → γ → ω × γ
  | 0, source => (low, source)
  | tries + 1, source =>
      let (word, after) := draw source
      let fraction : ω :=
        ReportScalar.ofNat (word.toNat >>> 12) / ReportScalar.ofNat (1 <<< 52)
      let value := fraction * scale + low
      if value < high then (value, after) else drawScaled low high scale tries after

/-- A number of the half-open interval from `low` to `high`. -/
def drawReal {ω : Type} [ReportScalar ω] (low high : ω) (source : γ) :
    Except Misdraw (ω × γ) :=
  if !(Scalar.isFinite low && Scalar.isFinite high && Scalar.isFinite (high - low)) then
    .error .unboundedRange
  else if low < high then .ok (drawScaled low high (high - low) attempts source)
  else .error .emptyRange

end Source

end DenseSimplex
