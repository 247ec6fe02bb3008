import Pivotal.Complex.Basic
import Pivotal.Grid

/-!
# Residuals

The Euclidean norm of `A x - b`.  Each product row is accumulated from the left, with the factors
one of the accumulation written out, since they matter for infinite and undefined entries.
-/

namespace Pivotal.Diagnostics

/-- Sum of the products of a row with a vector. -/
def rowProduct : List (Complex × Complex) → Complex
  | [] => 0
  | (a, x) :: rest => rest.foldl (fun y e => 1 * e.1 * e.2 + 1 * y) (1 * a * x)

/-- Length of a vector. -/
def euclideanNorm (v : List Complex) : Float :=
  Float.sqrt (v.foldl (fun s z => s + z.normSq) 0)

/-- Norm of `A x - b`; none when the dimensions do not fit. -/
def residualNorm? (a : Grid Complex) (x b : Array Complex) : Option Float :=
  if a.cols = x.size ∧ a.rows = b.size then
    some (euclideanNorm (List.zipWith (fun row t => rowProduct (row.zip x.toList) - t)
      a.toLists b.toList))
  else none

end Pivotal.Diagnostics
