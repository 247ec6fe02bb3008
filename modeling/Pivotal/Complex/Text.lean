import Pivotal.Complex.Basic
import Pivotal.Decimal.Layout

/-!
# Text of complex numbers

`pretty` leaves out a part that is zero; `full` always writes both parts and the sign between them;
`inspected` names the parts.
-/

namespace Pivotal.Complex

open Decimal (floatText Layout)

/-- Shortest text of a real number, never with an exponent. -/
def partText (x : Float) : List Char := floatText Layout.plain x

/-- Text such as `3`, `2i` or `1-0.5i`: a part that is exactly zero is left out. -/
def pretty (x : Complex) : List Char :=
  if x.im == 0 then partText x.re
  else if x.re == 0 then partText x.im ++ ['i']
  else if x.im < 0 then partText x.re ++ '-' :: partText (-x.im) ++ ['i']
  else partText x.re ++ '+' :: partText x.im ++ ['i']

/-- Both parts with a sign between them: `3+0i`, `-1-2i`. -/
def full (x : Complex) : List Char :=
  (if x.re < 0 then '-' :: partText (0 - x.re) else partText x.re) ++
    (if x.im < 0 then '-' :: partText (0 - x.im) else '+' :: partText x.im) ++ ['i']

/-- Both parts by name. -/
def inspected (x : Complex) : List Char :=
  "Complex \x7b re: ".toList ++ floatText Layout.inspected x.re ++ ", im: ".toList ++
    floatText Layout.inspected x.im ++ " \x7d".toList

end Pivotal.Complex
