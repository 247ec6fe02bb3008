/-!
# Doubles as whole numbers of quanta

Every finite double is a whole number of quanta of `2 ^ -1074`, so its magnitude is a natural
number and every question about rounding is a question about `Nat`.  A *pattern* is the 63-bit
word of a magnitude (the word without its sign bit); patterns are ordered as the magnitudes are.

* `quanta` reads a finite pattern;
* `nearest num den` is the pattern of the double closest to `num / den`, a tie going to the even
  pattern;
* `nearestRoot s` is the pattern of the double closest to the square root of `s`, in quanta.

`Shape` splits a `Float` into its sign and its pattern, and `magnitude` is the length of the
vector `(x, y)`, rounded once.
-/

namespace Pivotal.Decimal

/-- Nearest whole number to `num / den`; a half goes to the even neighbour. -/
def roundDiv (num den : Nat) : Nat :=
  let low := num / den
  let rest := num % den
  if den < 2 * rest ∨ (2 * rest = den ∧ low % 2 = 1) then low + 1 else low

/-- Number of quanta in one: a quantum is `2 ^ -1074`. -/
def quantaPerUnit : Nat := Nat.pow 2 1074

/-- Patterns of one binade: `2 ^ 52`. -/
def binade : Nat := Nat.pow 2 52

/-- The sign bit of a word: `2 ^ 63`. -/
def signWord : Nat := Nat.pow 2 63

/-- Pattern of infinity; the finite patterns lie below it, those of NaN above it. -/
def infinityPattern : Nat := 2047 * binade

/-- Quanta of a finite pattern. -/
def quanta (pattern : Nat) : Nat :=
  let field := pattern / binade
  let fraction := pattern % binade
  if field = 0 then fraction else (fraction + binade) * Nat.pow 2 (field - 1)

/-- Pattern of the double nearest to `num / den`.  With `shift` the binade of the quotient, the
pattern is `shift` binades plus the rounded significand: a significand that rounds up to the next
power of two lands on the first pattern of the next binade by itself. -/
def nearest (num den : Nat) : Nat :=
  let total := num * quantaPerUnit
  let shift := (total / den).log2 - 52
  min (shift * binade + roundDiv total (den * Nat.pow 2 shift)) infinityPattern

/-- Pattern of the double nearest to the square root of `square`, which counts squared quanta. -/
def nearestRoot (square : Nat) : Nat :=
  let root := square.sqrt
  let shift := root.log2 - 52
  let low := root / Nat.pow 2 shift
  let twiceMiddle := (2 * low + 1) * Nat.pow 2 shift
  let up := twiceMiddle * twiceMiddle < 4 * square ∨
    (twiceMiddle * twiceMiddle = 4 * square ∧ low % 2 = 1)
  min (shift * binade + (if up then low + 1 else low)) infinityPattern

/-- A double taken apart: the sign is kept for infinities and zeros, not for NaN. -/
inductive Shape where
  | nan
  | infinite (negative : Bool)
  | finite (negative : Bool) (pattern : Nat)
  deriving DecidableEq, Repr

/-- The double of a sign and a pattern. -/
def ofPattern (negative : Bool) (pattern : Nat) : Float :=
  Float.ofBits (UInt64.ofNat (if negative then signWord + pattern else pattern))

namespace Shape

def ofFloat (x : Float) : Shape :=
  let word := x.toBits.toNat
  let negative := decide (signWord ≤ word)
  let pattern := word % signWord
  if infinityPattern < pattern then .nan
  else if pattern = infinityPattern then .infinite negative
  else .finite negative pattern

def toFloat : Shape → Float
  | .nan => Float.ofBits (UInt64.ofNat (infinityPattern + binade / 2))
  | .infinite negative => ofPattern negative infinityPattern
  | .finite negative pattern => ofPattern negative pattern

end Shape

/-- Length of the vector `(x, y)`, correctly rounded: an infinite part makes it infinite, even
beside a NaN.  It stands for the hypotenuse function of a mathematical library, whose precision is
not specified: one that does not round correctly may give a neighbouring double, as for `17` and
`27`.  No proof uses the bits of this one. -/
def magnitude (x y : Float) : Float :=
  match Shape.ofFloat x, Shape.ofFloat y with
  | .infinite _, _ => ofPattern false infinityPattern
  | _, .infinite _ => ofPattern false infinityPattern
  | .nan, _ => Shape.nan.toFloat
  | _, .nan => Shape.nan.toFloat
  | .finite _ p, .finite _ q =>
    ofPattern false (nearestRoot (quanta p * quanta p + quanta q * quanta q))

end Pivotal.Decimal
