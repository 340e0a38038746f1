/-
  DenseSimplex.Random.ChaCha
  ──────────────────────────
  **THE SEEDED GENERATOR: A ChaCha KEY STREAM OF TWELVE ROUNDS.**

  The generator is a key and a position.  The word at a position is a pure
  function of both, so a generator can be copied, compared and replayed;
  drawing moves the position on by one.

      word k n  =  words 2 (n mod 8), 2 (n mod 8) + 1 of block n / 8 of k

  A block is held as four rows of four lanes.  A round works on the lanes
  of all rows at once; a double round is one round on the columns and one
  on the diagonals, which are columns after each row is turned by its
  number.

    * `Generator.ofSeed`  the key of a 64-bit seed;
    * `Source Generator`  the key stream as a source of words.
-/
import DenseSimplex.Random.Source

namespace DenseSimplex

/-! ## §1. Rows of four lanes. -/

/-- Four 32-bit words, one per lane. -/
structure Row where
  w : UInt32
  x : UInt32
  y : UInt32
  z : UInt32
  deriving DecidableEq, Repr

namespace Row

/-- Lane by lane. -/
def map₂ (f : UInt32 → UInt32 → UInt32) (r s : Row) : Row :=
  ⟨f r.w s.w, f r.x s.x, f r.y s.y, f r.z s.z⟩

/-- Every lane rotated left by `n` bits, for `n` between 1 and 31. -/
def rotateLanes (n : UInt32) (r : Row) : Row :=
  let rotate (v : UInt32) : UInt32 := (v <<< n) ||| (v >>> (32 - n))
  ⟨rotate r.w, rotate r.x, rotate r.y, rotate r.z⟩

/-- The lanes moved down by one place. -/
def turn (r : Row) : Row := ⟨r.x, r.y, r.z, r.w⟩

/-- The lanes in order. -/
def lanes (r : Row) : List UInt32 := [r.w, r.x, r.y, r.z]

end Row

/-! ## §2. Blocks. -/

/-- The sixteen words of a block, row by row. -/
structure Block where
  a : Row
  b : Row
  c : Row
  d : Row
  deriving DecidableEq, Repr

namespace Block

/-- Add the second row into the first, mix the sum into the third and
rotate it. -/
def mix (n : UInt32) (sum addend mixed : Row) : Row × Row :=
  let sum := sum.map₂ (· + ·) addend
  (sum, (mixed.map₂ (· ^^^ ·) sum).rotateLanes n)

/-- One round on the columns. -/
def columnRound (k : Block) : Block :=
  let (a, d) := mix 16 k.a k.b k.d
  let (c, b) := mix 12 k.c d k.b
  let (a, d) := mix 8 a b d
  let (c, b) := mix 7 c d b
  ⟨a, b, c, d⟩

/-- Diagonals to columns: each row is turned by its number. -/
def diagonals (k : Block) : Block :=
  ⟨k.a, k.b.turn, k.c.turn.turn, k.d.turn.turn.turn⟩

/-- Columns back to diagonals. -/
def columns (k : Block) : Block :=
  ⟨k.a, k.b.turn.turn.turn, k.c.turn.turn, k.d.turn⟩

/-- A round on the columns, then one on the diagonals. -/
def doubleRound (k : Block) : Block := k.columnRound.diagonals.columnRound.columns

/-- Word by word. -/
def add (k l : Block) : Block :=
  ⟨k.a.map₂ (· + ·) l.a, k.b.map₂ (· + ·) l.b, k.c.map₂ (· + ·) l.c, k.d.map₂ (· + ·) l.d⟩

/-- Six double rounds, added to what they started from. -/
def stream (k : Block) : Block := (Nat.repeat doubleRound 6 k).add k

/-- The sixteen words in order. -/
def words (k : Block) : List UInt32 := k.a.lanes ++ k.b.lanes ++ k.c.lanes ++ k.d.lanes

/-- The words two by two, the first of each pair being the low half. -/
def pairUp : List UInt32 → List UInt64
  | low :: high :: rest => (low.toUInt64 ||| (high.toUInt64 <<< 32)) :: pairUp rest
  | _ => []

end Block

/-! ## §3. The generator. -/

/-- A key of eight words and the number of words drawn so far. -/
structure Generator where
  low : Row
  high : Row
  position : Nat
  deriving DecidableEq, Repr

namespace Generator

/-- The first row of every block. -/
def constants : Row := ⟨0x61707865, 0x3320646e, 0x79622d32, 0x6b206574⟩

/-- The block at an index of the key stream: constants, key and a 64-bit
counter, through the rounds. -/
def block (g : Generator) (index : Nat) : Block :=
  let counter := UInt64.ofNat index
  Block.stream ⟨constants, g.low, g.high, ⟨counter.toUInt32, (counter >>> 32).toUInt32, 0, 0⟩⟩

/-- The word at a position of the key stream; a block holds eight. -/
def wordAt (g : Generator) (position : Nat) : UInt64 :=
  (Block.pairUp (g.block (position / 8)).words).getD (position % 8) 0

instance : Source Generator where
  draw g := (g.wordAt g.position, { g with position := g.position + 1 })

/-- The linear congruential step that expands a seed. -/
def seedStep (s : UInt64) : UInt64 := s * 6364136223846793005 + 11634580027462260723

/-- The key word of an expanded seed: its upper bits folded together and
rotated right by the uppermost five. -/
def keyWord (s : UInt64) : UInt32 :=
  let folded := (((s >>> 18) ^^^ s) >>> 27).toUInt32
  let turn := (s >>> 59).toUInt32
  (folded >>> turn) ||| (folded <<< ((32 - turn) % 32))

/-- Four key words from a seed, and the seed after them. -/
def keyRow (s : UInt64) : Row × UInt64 :=
  let s₁ := seedStep s
  let s₂ := seedStep s₁
  let s₃ := seedStep s₂
  let s₄ := seedStep s₃
  (⟨keyWord s₁, keyWord s₂, keyWord s₃, keyWord s₄⟩, s₄)

/-- The generator of a seed, at the start of its key stream. -/
def ofSeed (seed : UInt64) : Generator :=
  let (low, after) := keyRow seed
  let (high, _) := keyRow after
  ⟨low, high, 0⟩

end Generator

end DenseSimplex
