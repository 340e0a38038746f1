/-
  DenseSimplex.Text.Numeral
  ─────────────────────────
  **READING NUMBERS.**

  A decimal numeral has digits before the point, digits after it and an
  exponent; `Numeral.scan` splits a text into the three.  Two readers:

    * `readNatural`  an optional plus sign and ASCII digits, below a bound;
    * `readFloat`    an optional sign, then a numeral with a digit on at
                     least one side of the point, or the name of infinity
                     or of what is not a number, in any ASCII case.

  A numeral is read to the nearest double; one beyond the range is
  infinite.
-/
import DenseSimplex.Number.Decimal

namespace DenseSimplex

/-! ## §1. Digits. -/

/-- Whether a character is an ASCII digit. -/
def isDecimalDigit (c : Char) : Bool := decide ('0' ≤ c ∧ c ≤ '9')

/-- The number that a row of ASCII digits spells. -/
def digitsValue (cs : List Char) : Nat :=
  cs.foldl (fun n c => 10 * n + (c.toNat - '0'.toNat)) 0

/-- A letter of A to Z in lower case; any other character as it is. -/
def lowerAscii (c : Char) : Char :=
  if 'A' ≤ c ∧ c ≤ 'Z' then Char.ofNat (c.toNat + 32) else c

/-- An optional plus sign, then one or more ASCII digits that spell a
number below the bound. -/
def readNatural (bound : Nat) (cs : List Char) : Option Nat :=
  let digits := match cs with
    | '+' :: rest => rest
    | _ => cs
  if digits ≠ [] ∧ digits.all isDecimalDigit ∧ digitsValue digits < bound then
    some (digitsValue digits)
  else none

/-- A natural number that fits a 64-bit word. -/
def readWord (cs : List Char) : Option Nat := readNatural UInt64.size cs

/-! ## §2. Numerals. -/

/-- A decimal numeral: the digits before and after the point and the
exponent. -/
structure Numeral where
  whole : List Char
  fraction : List Char
  exponent : Int

namespace Numeral

/-- The number that a numeral spells. -/
def decimal (n : Numeral) : Decimal :=
  ⟨digitsValue (n.whole ++ n.fraction), n.exponent - n.fraction.length⟩

/-- An optional sign and one or more digits, up to the end of the text. -/
def readExponent (cs : List Char) : Option Int :=
  let (negative, digits) := match cs with
    | '-' :: rest => (true, rest)
    | '+' :: rest => (false, rest)
    | _ => (false, cs)
  if digits ≠ [] ∧ digits.all isDecimalDigit then
    let size : Int := digitsValue digits
    some (if negative then -size else size)
  else none

/-- A whole text as a numeral: digits, a point with digits after it, and an
exponent, each of which may be absent. -/
def scan (cs : List Char) : Option Numeral :=
  let whole := cs.takeWhile isDecimalDigit
  let (fraction, rest) := match cs.dropWhile isDecimalDigit with
    | '.' :: after => (after.takeWhile isDecimalDigit, after.dropWhile isDecimalDigit)
    | other => ([], other)
  match rest with
  | [] => some ⟨whole, fraction, 0⟩
  | 'e' :: exponent | 'E' :: exponent => (readExponent exponent).map fun e => ⟨whole, fraction, e⟩
  | _ => none

end Numeral

/-! ## §3. Floats. -/

/-- A float without its sign. -/
def readUnsignedFloat (cs : List Char) : Option Float :=
  let name := cs.map lowerAscii
  if name = "nan".toList then some (Binary.ofDatum .notANumber)
  else if name = "inf".toList ∨ name = "infinity".toList then
    some (Binary.ofDatum (.infinite false))
  else
    match Numeral.scan cs with
    | some n => if n.whole = [] ∧ n.fraction = [] then none else some n.decimal.toFloat
    | none => none

/-- A float: an optional sign, then a numeral or a name. -/
def readFloat (cs : List Char) : Option Float :=
  match cs with
  | '-' :: rest => (readUnsignedFloat rest).map (-·)
  | '+' :: rest => readUnsignedFloat rest
  | _ => readUnsignedFloat cs

end DenseSimplex
