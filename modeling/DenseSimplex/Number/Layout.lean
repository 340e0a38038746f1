/-
  DenseSimplex.Number.Layout
  ──────────────────────────
  **HOW NUMBERS ARE WRITTEN.**

  Digits come from `DenseSimplex.Number.Decimal`; a `Layout` decides the
  rest: where positional notation ends, whether whole numbers keep a
  fraction, how exponents are signed.  Four texts of a machine number are
  used by the reports:

    * `display`            the shortest digits, never an exponent;
    * `scientific`         the shortest digits, always an exponent;
    * `scientificTo n`     `n` digits after the point and an exponent;
    * `fixedTo n`          `n` digits after the point, no exponent.

  The sign of zero is always written; what is not a number is `NaN` and
  infinity is `inf` in all four.
-/
import DenseSimplex.Number.Decimal

namespace DenseSimplex

/-! ## §1. Columns of text. -/

/-- The text with blanks before it, at least `width` characters wide. -/
def padLeft (width : Nat) (text : String) : String :=
  String.ofList (List.replicate (width - text.length) ' ') ++ text

/-- Zeros before the digits of a natural number, at least `width` of them
in all. -/
def paddedDigits (width n : Nat) : List Char :=
  let digits := Nat.toDigits 10 n
  List.replicate (width - digits.length) '0' ++ digits

/-! ## §2. Digits to text. -/

/-- Digits with the decimal point after the digit of exponent zero, the
first digit having exponent `first`; a whole number ends in `.0` where
`point` asks for it. -/
def positionalText (point : Bool) (digits : List Char) (first : Int) : List Char :=
  if first < 0 then
    '0' :: '.' :: List.replicate (-first - 1).toNat '0' ++ digits
  else
    let whole := first.toNat + 1
    if digits.length ≤ whole then
      digits ++ List.replicate (whole - digits.length) '0' ++ (if point then ['.', '0'] else [])
    else digits.take whole ++ '.' :: digits.drop whole

/-- Digits with the point after the first of them and the exponent of that
digit; a plus sign before it where `plus` asks for one. -/
def exponentText (plus : Bool) (digits : List Char) (first : Int) : List Char :=
  let mantissa := match digits with
    | head :: next :: rest => head :: '.' :: next :: rest
    | _ => digits
  let sign : List Char := if first < 0 then ['-'] else if plus then ['+'] else []
  mantissa ++ 'e' :: sign ++ Nat.toDigits 10 first.natAbs

/-- The decisions of one way of writing shortest digits: which of two
equally near decimals is taken, for which exponents of the first digit the
number is positional, whether whole numbers keep a point, and whether
exponents carry a plus sign. -/
structure Layout where
  tie : Tie
  positional : Int → Bool
  point : Bool
  plus : Bool

namespace Layout

/-- The text of a decimal. -/
def decimalText (l : Layout) (d : Decimal) : List Char :=
  let digits := d.characters
  let first := d.exponent + digits.length - 1
  if l.positional first then positionalText l.point digits first
  else exponentText l.plus digits first

/-- The text of a finite dyadic number without its sign. -/
def magnitudeText (l : Layout) (f : Format) (significand : Nat) (exponent : Int) : List Char :=
  if significand = 0 then l.decimalText ⟨0, 0⟩
  else l.decimalText (Dyadic.shortest ⟨significand, exponent⟩ f l.tie)

end Layout

/-- The reports' plain text of a number: positional whatever its size, the
upper decimal on a tie. -/
def Layout.display : Layout := ⟨.up, fun _ => true, false, false⟩

/-- The reports' text with an exponent, whatever the size. -/
def Layout.scientific : Layout := ⟨.up, fun _ => false, false, false⟩

/-! ## §3. The four texts of a machine number. -/

namespace Binary

variable {α : Type} [Binary α]

/-- The sign, then what `magnitude` writes for a finite number. -/
def signedText (magnitude : Nat → Int → List Char) (v : α) : String :=
  let signed (negative : Bool) (body : List Char) : String :=
    String.ofList (if negative then '-' :: body else body)
  match datum v with
  | .notANumber => "NaN"
  | .infinite negative => signed negative ['i', 'n', 'f']
  | .finite negative significand exponent => signed negative (magnitude significand exponent)

/-- The shortest digits that read back, without an exponent. -/
def display (v : α) : String := signedText (Layout.display.magnitudeText (format α)) v

/-- The shortest digits that read back, with an exponent. -/
def scientific (v : α) : String := signedText (Layout.scientific.magnitudeText (format α)) v

/-- `places` digits after the point of the first digit, and an exponent. -/
def scientificTo (places : Nat) (v : α) : String :=
  signedText (fun m e =>
    if m = 0 then exponentText false (List.replicate (places + 1) '0') 0
    else
      let d := Dyadic.toPrecision ⟨m, e⟩ (places + 1)
      exponentText false d.characters (d.exponent + places)) v

/-- `places` digits after the point; a positive number of them. -/
def fixedTo (places : Nat) (v : α) : String :=
  signedText (fun m e =>
    let count := if m = 0 then 0 else Dyadic.atPlace ⟨m, e⟩ .even (-places)
    let unit := Nat.pow 10 places
    Nat.toDigits 10 (count / unit) ++ '.' :: paddedDigits places (count % unit)) v

end Binary

end DenseSimplex
