import Pivotal.Decimal.Shortest

/-!
# Number text

The text of a double: its shortest decimal laid out by a `Layout`, or a fixed number of places of
its exact value.  NaN is written `NaN` without a sign, the infinities `inf` and `-inf`; a negative
zero keeps its sign.
-/

namespace Pivotal.Decimal

/-- Digits of a number in base ten, `0` for zero. -/
def digitsOf (n : Nat) : List Char := Nat.toDigits 10 n

/-- An integer in base ten, with a minus when negative. -/
def intText (z : Int) : List Char :=
  if z < 0 then '-' :: digitsOf z.natAbs else digitsOf z.natAbs

/-- Which numbers are written with an exponent. -/
inductive ExponentRule where
  | never
  | always
  /-- Those whose leading digit stands for a power of ten below `low`, or from `high` on. -/
  | outside (low high : Int)
  deriving DecidableEq, Repr

/-- Whether a number whose leading digit stands for `10 ^ lead` is written without an exponent. -/
def ExponentRule.isPositional : ExponentRule → Int → Bool
  | .never, _ => true
  | .always, _ => false
  | .outside low high, lead => low ≤ lead && lead < high

/-- How a finite number is laid out. -/
structure Layout where
  exponents : ExponentRule
  /-- Least number of fraction digits of a number without an exponent. -/
  minFraction : Nat
  deriving DecidableEq, Repr

namespace Layout

/-- Never an exponent, and a point only before a fraction: `3`, `-0.5`. -/
def plain : Layout := ⟨.never, 0⟩

/-- Always an exponent: `1e0`, `-2.5e-3`. -/
def scientific : Layout := ⟨.always, 0⟩

/-- An exponent below `10 ^ -4` and from `10 ^ 16` on, and between them a fraction of one digit at
least: `1.0`, `1e21`. -/
def inspected : Layout := ⟨.outside (-4) 16, 1⟩

end Layout

/-- Text of `d` without an exponent. -/
def positionalText (minFraction : Nat) (d : Decimal) : List Char :=
  let ds := digitsOf d.digits
  if 0 ≤ d.exponent then
    ds ++ List.replicate d.exponent.toNat '0' ++
      (if minFraction = 0 then [] else '.' :: List.replicate minFraction '0')
  else
    let places := (-d.exponent).toNat
    let padded := List.replicate (places + 1 - ds.length) '0' ++ ds
    padded.take (padded.length - places) ++ '.' :: padded.drop (padded.length - places)

/-- Text of `d` with one digit before the point and an exponent. -/
def scientificText (d : Decimal) : List Char :=
  match digitsOf d.digits with
  | [] => []
  | [c] => c :: 'e' :: intText d.exponent
  | c :: cs => c :: '.' :: cs ++ 'e' :: intText (d.exponent + cs.length)

/-- Text of a decimal without trailing zeros. -/
def text (l : Layout) (d : Decimal) : List Char :=
  let lead := d.exponent + (digitsOf d.digits).length - 1
  if l.exponents.isPositional lead then d.positionalText l.minFraction else d.scientificText

/-- Puts the sign of a number in front of its text. -/
def signed (negative : Bool) (body : List Char) : List Char :=
  if negative then '-' :: body else body

/-- The text of a double, the text of a finite magnitude being given. -/
def render (magnitudeText : Nat → List Char) (x : Float) : List Char :=
  match Shape.ofFloat x with
  | .nan => ['N', 'a', 'N']
  | .infinite negative => signed negative ['i', 'n', 'f']
  | .finite negative word => signed negative (magnitudeText word)

/-- The shortest text of a double in a layout. -/
def floatText (l : Layout) (x : Float) : List Char :=
  render (fun word => (shortest word).text l) x

/-- The number in units of `10 ^ -places`, as text with a point before the last `places` digits. -/
def pointed (places n : Nat) : List Char :=
  positionalText 0 ⟨n, -(places : Int)⟩

/-- The exact value rounded to `places` digits after the point, a half to the even neighbour. -/
def fixedText (places : Nat) (x : Float) : List Char :=
  render (fun word => pointed places (roundDiv (quanta word * Nat.pow 10 places) quantaPerUnit)) x

/-- The exact value rounded to one digit before the point and `places` after it, with an
exponent. -/
def fixedScientificText (places : Nat) (x : Float) : List Char :=
  render (fun word =>
    if word = 0 then pointed places 0 ++ ['e', '0']
    else
      let count := quanta word
      let lead := leadingExponent count
      let (num, den) := scaled count (lead - places)
      let n := roundDiv num den
      if n = Nat.pow 10 (places + 1) then pointed places (n / 10) ++ 'e' :: intText (lead + 1)
      else pointed places n ++ 'e' :: intText lead) x

end Pivotal.Decimal
