/-
  DenseSimplex.Memory
  ───────────────────
  **WHAT A LIST CAN HOLD.**

  A list whose length is known in advance is refused before its first item
  is made, if its items could not be addressed together.  The limit is a
  matter of arithmetic only: nothing is said about the memory that is
  there.
-/

namespace DenseSimplex

/-- The most bytes that one list can take: half of the addresses that a
64-bit word tells apart, less one. -/
def maxBytes : Nat := UInt64.size / 2 - 1

/-- Whether a list of `count` items of `bytes` bytes each can be
addressed. -/
def canHold (count bytes : Nat) : Bool := decide (count * bytes ≤ maxBytes)

/-- The bytes of a number, of the wider of the two types. -/
def numberBytes : Nat := 8

/-- The bytes by which a list refers to another list: address, length and
room. -/
def listBytes : Nat := 24

end DenseSimplex
