/-
  DenseSimplex.Bench.Json
  ───────────────────────
  **JSON TEXTS.**

  A reader for strict JSON: no comments, no trailing commas, no leading
  zeros, nothing after the value.  The tree keeps what a summary is read
  from and no more: a number keeps its digits, an object its members in
  order with repetitions, and a text that no character string can hold
  (half of a surrogate pair alone) is kept as absent, so that it can be
  skipped where its content does not matter.

  `Json.parse?` reads with as much fuel as the text has characters; every
  nested value takes at least one of them.
-/
import DenseSimplex.Text.Numeral

namespace DenseSimplex

/-! ## §1. Trees. -/

/-- A number as it is written: its sign, its digits before and after the
point, and the exponent, where there is one. -/
structure JsonNumber where
  negative : Bool
  whole : List Char
  fraction : Option (List Char)
  exponent : Option Int
  deriving DecidableEq, Repr

/-- A JSON value. -/
inductive Json where
  | null
  | bool (value : Bool)
  | number (value : JsonNumber)
  | text (value : Option (List Char))
  | array (items : List Json)
  | object (members : List (Option (List Char) × Json))

namespace Json

/-! ## §2. Tokens. -/

/-- Drop the white space of JSON. -/
def skipBlanks : List Char → List Char
  | c :: cs => if c = ' ' ∨ c = '\n' ∨ c = '\t' ∨ c = '\r' then skipBlanks cs else c :: cs
  | [] => []

/-- The value of a hexadecimal digit. -/
def hexDigit? (c : Char) : Option Nat :=
  if '0' ≤ c ∧ c ≤ '9' then some (c.toNat - '0'.toNat)
  else if 'a' ≤ c ∧ c ≤ 'f' then some (c.toNat - 'a'.toNat + 10)
  else if 'A' ≤ c ∧ c ≤ 'F' then some (c.toNat - 'A'.toNat + 10)
  else none

/-- Four hexadecimal digits and the text after them. -/
def hexUnit? : List Char → Option (Nat × List Char)
  | a :: b :: c :: d :: rest => do
      let a ← hexDigit? a
      let b ← hexDigit? b
      let c ← hexDigit? c
      let d ← hexDigit? d
      pure (((a * 16 + b) * 16 + c) * 16 + d, rest)
  | _ => none

/-- The character of a one-letter escape. -/
def simpleEscape? : Char → Option Char
  | '"' => some '"'
  | '\\' => some '\\'
  | '/' => some '/'
  | 'b' => some '\x08'
  | 'f' => some '\x0c'
  | 'n' => some '\n'
  | 'r' => some '\r'
  | 't' => some '\t'
  | _ => none

/-- A piece of a text: a character or a 16-bit unit written as an
escape. -/
inductive Piece where
  | char (c : Char)
  | unit (n : Nat)

/-- The characters that pieces spell; units of a surrogate pair are joined,
and there are none if one stands alone. -/
def spell : List Piece → Option (List Char)
  | [] => some []
  | .char c :: rest => (spell rest).map (c :: ·)
  | .unit high :: .unit low :: rest =>
      -- the first half of a pair needs the second one right after it
      if 0xD800 ≤ high ∧ high < 0xDC00 then
        if 0xDC00 ≤ low ∧ low < 0xE000 then
          (spell rest).map (Char.ofNat (0x10000 + (high - 0xD800) * 0x400 + (low - 0xDC00)) :: ·)
        else none
      else if 0xDC00 ≤ high ∧ high < 0xE000 then none
      else (spell (.unit low :: rest)).map (Char.ofNat high :: ·)
  | .unit n :: rest =>
      if 0xD800 ≤ n ∧ n < 0xE000 then none else (spell rest).map (Char.ofNat n :: ·)

/-- The pieces of a text up to its closing quote, and what follows. -/
def pieces? : Nat → List Char → Option (List Piece × List Char)
  | 0, _ => none
  | fuel + 1, cs =>
      match cs with
      | '"' :: rest => some ([], rest)
      | '\\' :: 'u' :: rest => do
          let (unit, rest) ← hexUnit? rest
          let (tail, rest) ← pieces? fuel rest
          pure (.unit unit :: tail, rest)
      | '\\' :: c :: rest => do
          let c ← simpleEscape? c
          let (tail, rest) ← pieces? fuel rest
          pure (.char c :: tail, rest)
      | c :: rest =>
          if c.toNat < 0x20 ∨ c = '\\' then none
          else do
            let (tail, rest) ← pieces? fuel rest
            pure (.char c :: tail, rest)
      | [] => none

/-- The digits after a point: at least one. -/
def fraction? : List Char → Option (Option (List Char) × List Char)
  | '.' :: cs =>
      let digits := cs.takeWhile isDecimalDigit
      if digits = [] then none else some (some digits, cs.dropWhile isDecimalDigit)
  | cs => some (none, cs)

/-- An exponent: a sign, which may be absent, and at least one digit. -/
def exponent? : List Char → Option (Option Int × List Char)
  | c :: cs =>
      if c = 'e' ∨ c = 'E' then
        let (sign, after) := match cs with
          | '+' :: rest => (1, rest)
          | '-' :: rest => (-1, rest)
          | _ => (1, cs)
        let digits := after.takeWhile isDecimalDigit
        let size : Int := digitsValue digits
        if digits = [] then none else some (some (sign * size), after.dropWhile isDecimalDigit)
      else some (none, c :: cs)
  | [] => some (none, [])

/-- A number and what follows it. -/
def number? (cs : List Char) : Option (JsonNumber × List Char) := do
  let (negative, unsigned) := match cs with
    | '-' :: rest => (true, rest)
    | _ => (false, cs)
  let whole := unsigned.takeWhile isDecimalDigit
  if whole = [] ∨ (whole.head? = some '0' ∧ whole ≠ ['0']) then none
  else
    let (fraction, rest) ← fraction? (unsigned.dropWhile isDecimalDigit)
    let (exponent, rest) ← exponent? rest
    pure (⟨negative, whole, fraction, exponent⟩, rest)

/-- What follows a word, if the text begins with it. -/
def afterWord? : List Char → List Char → Option (List Char)
  | [], cs => some cs
  | w :: word, c :: cs => if w = c then afterWord? word cs else none
  | _ :: _, [] => none

/-! ## §3. Values. -/

mutual

/-- A value and what follows it. -/
def value? : Nat → List Char → Option (Json × List Char)
  | 0, _ => none
  | fuel + 1, cs =>
      match skipBlanks cs with
      | '"' :: rest => do
          let (pieces, rest) ← pieces? (rest.length + 1) rest
          pure (.text (spell pieces), rest)
      | '[' :: rest =>
          match skipBlanks rest with
          | ']' :: rest => some (.array [], rest)
          | rest => do
              let (items, rest) ← items? fuel rest
              pure (.array items, rest)
      | '\x7b' :: rest =>
          match skipBlanks rest with
          | '\x7d' :: rest => some (.object [], rest)
          | rest => do
              let (members, rest) ← members? fuel rest
              pure (.object members, rest)
      | 'n' :: rest => (afterWord? ['u', 'l', 'l'] rest).map fun rest => (.null, rest)
      | 't' :: rest => (afterWord? ['r', 'u', 'e'] rest).map fun rest => (.bool true, rest)
      | 'f' :: rest => (afterWord? ['a', 'l', 's', 'e'] rest).map fun rest => (.bool false, rest)
      | rest => (number? rest).map fun (n, rest) => (.number n, rest)

/-- The items of an array up to its closing bracket, and what follows. -/
def items? : Nat → List Char → Option (List Json × List Char)
  | 0, _ => none
  | fuel + 1, cs => do
      let (item, rest) ← value? fuel cs
      match skipBlanks rest with
      | ']' :: rest => some ([item], rest)
      | ',' :: rest => do
          let (items, rest) ← items? fuel rest
          pure (item :: items, rest)
      | _ => none

/-- The members of an object up to its closing brace, and what follows. -/
def members? : Nat → List Char → Option (List (Option (List Char) × Json) × List Char)
  | 0, _ => none
  | fuel + 1, cs =>
      match skipBlanks cs with
      | '"' :: rest => do
          let (pieces, rest) ← pieces? (rest.length + 1) rest
          match skipBlanks rest with
          | ':' :: rest => do
              let (value, rest) ← value? fuel rest
              match skipBlanks rest with
              | '\x7d' :: rest => some ([(spell pieces, value)], rest)
              | ',' :: rest => do
                  let (members, rest) ← members? fuel rest
                  pure ((spell pieces, value) :: members, rest)
              | _ => none
          | _ => none
      | _ => none

end

/-- A whole text as one value with white space around it.  Every value,
item and member takes a character of the text, and fuel is spent on each
of them at most twice. -/
def parse? (cs : List Char) : Option Json := do
  let (value, rest) ← value? (2 * cs.length + 2) cs
  if skipBlanks rest = [] then some value else none

end Json

end DenseSimplex
