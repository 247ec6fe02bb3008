import Pivotal.Decimal.Binary

/-!
# The shortest decimal that reads back

A decimal `digits · 10 ^ exponent` reads as the pattern of its nearest double
(`pattern`).  `shortest` is the first of the grids `10 ^ e, 10 ^ (e - 1), …` below the
leading digit of a double on which one of the double's two neighbours reads back; of two such
neighbours the nearer one is taken, and the upper one on a tie.
-/

namespace Pivotal

/-- The number `digits · 10 ^ exponent`. -/
structure Decimal where
  digits : Nat
  exponent : Int
  deriving DecidableEq, Repr

namespace Decimal

/-- Digits of a positive number in base ten, none for zero. -/
def decimalLength (n : Nat) : Nat := if n = 0 then 0 else (Nat.toDigits 10 n).length

/-- The whole number `10 ^ e`, one for a negative `e`. -/
def powerOfTen (e : Int) : Nat := Nat.pow 10 e.toNat

/-- Pattern of the nearest double.  The two early answers spare the power of ten: from `10 ^ 310`
on the nearest double is infinite, and below `10 ^ -330` it is zero. -/
def pattern (d : Decimal) : Nat :=
  if d.digits = 0 then 0
  else
    let top := d.exponent + decimalLength d.digits
    if 310 < top then infinityPattern
    else if top < -330 then 0
    else nearest (d.digits * powerOfTen d.exponent) (powerOfTen (-d.exponent))

/-- Drops trailing zeros of the digits, `fuel` of them at most. -/
def trimUpTo : Nat → Decimal → Decimal
  | 0, d => d
  | fuel + 1, d =>
    if d.digits % 10 = 0 ∧ d.digits ≠ 0 then trimUpTo fuel ⟨d.digits / 10, d.exponent + 1⟩ else d

/-- The same number without trailing zeros. -/
def trim (d : Decimal) : Decimal := trimUpTo (decimalLength d.digits) d

/-- The exponent `e` with `10 ^ e ≤ v < 10 ^ (e + 1)`, for a positive `v` given in quanta. -/
def leadingExponent (count : Nat) : Int :=
  (decimalLength (count * Nat.pow 10 330 / quantaPerUnit) : Int) - 331

/-- The fraction `v / 10 ^ e`, for `v` given in quanta. -/
def scaled (count : Nat) (e : Int) : Nat × Nat :=
  (count * powerOfTen (-e), quantaPerUnit * powerOfTen e)

/-- The neighbour of a double on the grid of `10 ^ e` that reads back, if there is one. -/
def onGrid (word : Nat) (e : Int) : Option Decimal :=
  let (num, den) := scaled (quanta word) e
  let low : Decimal := ⟨num / den, e⟩
  let high : Decimal := ⟨num / den + 1, e⟩
  if low.pattern = word then
    if high.pattern = word ∧ den ≤ 2 * (num % den) then some high else some low
  else if high.pattern = word then some high
  else none

/-- Every digit of a double: a quantum is `5 ^ 1074 / 10 ^ 1074`. -/
def allDigits (word : Nat) : Decimal := ⟨quanta word * Nat.pow 5 1074, -1074⟩

/-- The shortest decimal that reads as the given finite pattern, the nearest of its length. -/
def shortest (word : Nat) : Decimal :=
  if word = 0 then ⟨0, 0⟩
  else
    let lead := leadingExponent (quanta word)
    (((List.range 17).findSome? fun (k : Nat) => onGrid word (lead - k)).getD (allDigits word)).trim

end Decimal

end Pivotal
