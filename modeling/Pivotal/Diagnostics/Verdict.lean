import Pivotal.Diagnostics.Determinant
import Pivotal.Diagnostics.SingularValues
import Pivotal.Notice

/-!
# Verdicts on a system

Whether a system has a solution (its coefficients and its augmented matrix have one rank), whether
its matrix is singular, and whether it is poorly conditioned.  A question that makes no sense for
the given dimensions has no answer, and neither has one about singular values that cannot be found
or ordered.
-/

namespace Pivotal.Diagnostics

/-- An answer and what was noticed on the way. -/
structure Finding where
  notices : List Notice
  verdict : Bool

/-- Singular values above this bound count towards the rank. -/
def rankTolerance : Float := 1e-10

def rank? (a : Grid Complex) : Option Nat :=
  (singularValues? a).map fun values => values.countP (rankTolerance < ·)

/-- The coefficients with the free terms as a further column. -/
def augmented (a : Grid Complex) (b : Vector Complex a.rows) : Grid Complex :=
  ⟨a.rows, a.cols + 1, Vector.zipWith (fun row t => row.push t) a.entries b⟩

/-- Whether the ranks of the coefficients and of the augmented matrix agree; no answer for a matrix
without entries, or when the free terms do not fit. -/
def consistent? (a : Grid Complex) (b : Array Complex) : Option Finding :=
  if h : b.size = a.rows then
    if a.isEmpty then none
    else do
      let r ← rank? a
      let s ← rank? (augmented a ⟨b, h⟩)
      return if r = s then ⟨[], true⟩ else ⟨[.ranksDiffer r s], false⟩
  else none

/-- Whether the determinant is below a limit in magnitude; no answer for a matrix that is not
square. -/
def isSingular? (a : Grid Complex) (limit : Float) : Option Finding :=
  if h : a.cols = a.rows then
    let d := (determinant (a.entries.map (·.cast h))).magnitude
    some (if d < limit then ⟨[.singularMatrix d], true⟩ else ⟨[], false⟩)
  else none

/-- Singular values can be put in order: there is only one, or all are numbers. -/
def areOrdered (values : List Float) : Bool := values.length ≤ 1 || values.all (!·.isNaN)

/-- Ratio of the largest singular value to the smallest one, values that are not numbers left aside;
one for a matrix without entries. -/
def conditionNumber? (a : Grid Complex) : Option Float :=
  if a.isEmpty then some 1
  else do
    let values ← singularValues? a
    guard (areOrdered values)
    let largest := values.foldl (fun big x => if big < x then x else big) 0
    let smallest := values.foldl (fun small x => if x < small then x else small) (1 / 0)
    return largest / smallest

/-- Whether the condition number exceeds a limit. -/
def poorlyConditioned? (a : Grid Complex) (limit : Float) : Option Finding :=
  (conditionNumber? a).map fun k =>
    if limit < k then ⟨[.poorlyConditioned k], true⟩ else ⟨[], false⟩

/-- Whether the system has a solution and its matrix is well conditioned. -/
def diagnose? (a : Grid Complex) (b : Array Complex) (limit : Float) : Option Finding := do
  let solvable ← consistent? a b
  if solvable.verdict then
    let poor ← poorlyConditioned? a limit
    return if poor.verdict then
        ⟨solvable.notices ++ poor.notices ++ [.solvableButPoorlyConditioned], false⟩
      else ⟨solvable.notices ++ poor.notices, true⟩
  else return ⟨solvable.notices ++ [.unsolvable], false⟩

end Pivotal.Diagnostics
