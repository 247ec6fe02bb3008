import Pivotal.Decimal.Binary
import Pivotal.Pivoting

/-!
# Complex numbers of doubles

Two doubles with the schoolbook operations, each part rounded after every step.  A quotient divides
by the squared length of the divisor without scaling, so a divisor whose square underflows or
overflows gives an infinite or undefined result.  Zero is exactly `0 + 0i`, of either sign.
-/

namespace Pivotal

/-- A complex number with parts in double precision. -/
structure Complex where
  re : Float
  im : Float
  deriving Inhabited

namespace Complex

def ofReal (x : Float) : Complex := ⟨x, 0⟩

instance : Zero Complex := ⟨⟨0, 0⟩⟩

instance : One Complex := ⟨⟨1, 0⟩⟩

/-- The imaginary unit. -/
def unit : Complex := ⟨0, 1⟩

instance : Add Complex := ⟨fun x y => ⟨x.re + y.re, x.im + y.im⟩⟩

instance : Sub Complex := ⟨fun x y => ⟨x.re - y.re, x.im - y.im⟩⟩

instance : Neg Complex := ⟨fun x => ⟨-x.re, -x.im⟩⟩

instance : Mul Complex :=
  ⟨fun x y => ⟨x.re * y.re - x.im * y.im, x.re * y.im + x.im * y.re⟩⟩

/-- Squared length. -/
def normSq (x : Complex) : Float := x.re * x.re + x.im * x.im

instance : Div Complex :=
  ⟨fun x y =>
    let n := y.normSq
    ⟨(x.re * y.re + x.im * y.im) / n, (x.im * y.re - x.re * y.im) / n⟩⟩

instance : Inv Complex :=
  ⟨fun x =>
    let n := x.normSq
    ⟨x.re / n, -x.im / n⟩⟩

/-- Length of the number as a vector. -/
def magnitude (x : Complex) : Float := Decimal.magnitude x.re x.im

/-- The imaginary part is exactly zero. -/
def isReal (x : Complex) : Bool := x.im == 0

/-- The real part is exactly zero. -/
def isImaginary (x : Complex) : Bool := x.re == 0

instance : Pivoting Complex where
  isZero x := x.re == 0 && x.im == 0
  outweighs x y := decide (y.magnitude < x.magnitude)

/-- Half the length of the unit circle. -/
def pi : Float := 3.141592653589793

/-- Angle against the positive real axis, in degrees. -/
def degrees (x : Complex) : Float := Float.atan2 x.im x.re * (180 / pi)

/-- Rounds both parts to the nearest multiple of `step`, a half away from zero. -/
def roundTo (x : Complex) (step : Float) : Complex :=
  ⟨(x.re / step).round * step, (x.im / step).round * step⟩

end Complex

end Pivotal
