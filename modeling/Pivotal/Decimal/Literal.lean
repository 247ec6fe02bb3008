import Pivotal.Decimal.Shortest

/-!
# Number literals

A literal is an optional sign followed by digits with an optional point and an optional exponent,
or by `inf`, `infinity` or `nan` in any case.  `Literal.read?` accepts exactly these texts, and
`Literal.value` rounds to the nearest double.  Whole numbers (`readInt?`, `readNat?`) are signed
digit strings.
-/

namespace Pivotal.Decimal

/-- The number written by a string of decimal digits. -/
def digitsValue (ds : List Char) : Nat :=
  ds.foldl (fun n c => 10 * n + (c.toNat - '0'.toNat)) 0

/-- Splits an optional sign off; the flag says that it was a minus. -/
def splitSign : List Char → Bool × List Char
  | '+' :: cs => (false, cs)
  | '-' :: cs => (true, cs)
  | cs => (false, cs)

/-- Splits the leading digits off. -/
def splitDigits (cs : List Char) : List Char × List Char :=
  (cs.takeWhile Char.isDigit, cs.dropWhile Char.isDigit)

/-- The digits of a point and its fraction, if a point comes first. -/
def splitFraction : List Char → List Char × List Char
  | '.' :: cs => splitDigits cs
  | cs => ([], cs)

/-- The exponent that makes up the whole rest of a number; no rest is the exponent zero. -/
def readExponent? : List Char → Option Int
  | [] => some 0
  | c :: cs =>
    if c = 'e' ∨ c = 'E' then
      let (negative, ds) := splitSign cs
      if ds ≠ [] ∧ ds.all Char.isDigit then
        some (if negative then -(digitsValue ds : Int) else digitsValue ds)
      else none
    else none

/-- Digits with an optional point, one digit at least, and an optional exponent. -/
def readDecimal? (cs : List Char) : Option Decimal :=
  let (whole, cs) := splitDigits cs
  let (fraction, cs) := splitFraction cs
  if whole = [] ∧ fraction = [] then none
  else (readExponent? cs).map fun e => ⟨digitsValue (whole ++ fraction), e - fraction.length⟩

/-- What a literal writes, its sign apart. -/
inductive Numeral where
  | infinite
  | nan
  | number (value : Decimal)
  deriving DecidableEq, Repr

/-- A signed number literal. -/
structure Literal where
  negative : Bool
  numeral : Numeral
  deriving DecidableEq, Repr

/-- The literals that are names, in any case of their letters. -/
def readName? (cs : List Char) : Option Numeral :=
  let name := cs.map Char.toLower
  if name = "inf".toList ∨ name = "infinity".toList then some .infinite
  else if name = "nan".toList then some .nan
  else none

namespace Literal

def read? (cs : List Char) : Option Literal :=
  let (negative, cs) := splitSign cs
  ((readName? cs).or ((readDecimal? cs).map Numeral.number)).map fun n => ⟨negative, n⟩

/-- The double nearest to the literal. -/
def value (l : Literal) : Float :=
  match l.numeral with
  | .infinite => ofPattern l.negative infinityPattern
  | .nan => Shape.nan.toFloat
  | .number d => ofPattern l.negative d.pattern

end Literal

/-- The double written by a literal. -/
def readFloat? (cs : List Char) : Option Float := (Literal.read? cs).map Literal.value

/-- The double nearest to an integer. -/
def ofInt (z : Int) : Float := ofPattern (decide (z < 0)) (pattern ⟨z.natAbs, 0⟩)

/-- A non-empty string of digits. -/
def readDigits? (ds : List Char) : Option Nat :=
  if ds ≠ [] ∧ ds.all Char.isDigit then some (digitsValue ds) else none

/-- A whole number with an optional sign, within 64 bits. -/
def readInt? (cs : List Char) : Option Int :=
  let (negative, ds) := splitSign cs
  (readDigits? ds).bind fun n =>
    if negative then (if n ≤ Nat.pow 2 63 then some (-(n : Int)) else none)
    else (if n < Nat.pow 2 63 then some (n : Int) else none)

/-- A whole number without a minus, below `2 ^ 64`. -/
def readNat? (cs : List Char) : Option Nat :=
  let ds := match cs with
    | '+' :: ds => ds
    | ds => ds
  (readDigits? ds).bind fun n => if n < Nat.pow 2 64 then some n else none

end Pivotal.Decimal
