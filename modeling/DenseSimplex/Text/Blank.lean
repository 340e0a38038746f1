/-
  DenseSimplex.Text.Blank
  ───────────────────────
  **WHITE SPACE.**

  The characters of the Unicode property `White_Space`, and cutting them
  off both ends of a text.  The class of the standard library knows the
  ASCII blanks only, and so it does not serve.
-/

namespace DenseSimplex

/-- The code point ranges of `White_Space`, first and last. -/
def blankRanges : List (Nat × Nat) :=
  [(0x09, 0x0D), (0x20, 0x20), (0x85, 0x85), (0xA0, 0xA0), (0x1680, 0x1680), (0x2000, 0x200A),
    (0x2028, 0x2029), (0x202F, 0x202F), (0x205F, 0x205F), (0x3000, 0x3000)]

/-- Whether a character is white space. -/
def isBlank (c : Char) : Bool :=
  blankRanges.any fun (first, last) => decide (first ≤ c.toNat ∧ c.toNat ≤ last)

/-- The text without the white space at its two ends. -/
def trimBlanks (cs : List Char) : List Char :=
  ((cs.dropWhile isBlank).reverse.dropWhile isBlank).reverse

end DenseSimplex
