import Pivotal.Complex.Basic
import Pivotal.Grid

/-!
# Determinants

Matrices of up to three rows by the expansion along the first row, larger ones by elimination with
row exchanges: the determinant is the product of the pivots, with the sign of the exchanges.  A
column without a non-zero entry is passed over and leaves a zero on the diagonal.
-/

namespace Pivotal.Diagnostics

/-- Sum of the magnitudes of both parts, the size by which a pivot is chosen. -/
def size1 (z : Complex) : Float := z.re.abs + z.im.abs

/-- The first row from `i` on with the greatest entry in column `i`. -/
def greatestRow {n : Nat} (a : Table Complex n n) (i : Fin n) : Fin n :=
  ((List.finRange n).filter (i < ·)).foldl
    (fun best j => if size1 ((a.get best).get i) < size1 ((a.get j).get i) then j else best) i

/-- A matrix in elimination, and whether the exchanges so far change the sign. -/
structure Reduction (n : Nat) where
  matrix : Table Complex n n
  negative : Bool

/-- Clears column `i` below the diagonal. -/
def Reduction.step {n : Nat} (r : Reduction n) (i : Fin n) : Reduction n :=
  let best := greatestRow r.matrix i
  let pivot := (r.matrix.get best).get i
  if isZero pivot then r
  else
    let a := if best = i then r.matrix else r.matrix.swap i best i.isLt best.isLt
    let inverse := 1 / pivot
    let a := ((List.finRange n).filter (i < ·)).foldl (fun a j =>
      let factor := (a.get j).get i * inverse
      let row := ((List.finRange n).filter (i < ·)).foldl
        (fun row k => put row k (-(a.get i).get k * factor + row.get k)) (a.get j)
      put a j row) a
    ⟨a, if best = i then r.negative else !r.negative⟩

/-- Determinant by elimination. -/
def eliminationDeterminant {n : Nat} (a : Table Complex n n) : Complex :=
  let r := (List.finRange n).foldl Reduction.step ⟨a, false⟩
  let product := (List.finRange n).foldl (fun d i => d * (r.matrix.get i).get i) 1
  product * (if r.negative then -1 else 1)

/-- Determinant of a square matrix. -/
def determinant {n : Nat} (a : Table Complex n n) : Complex :=
  match n, a with
  | 0, _ => 1
  | 1, a => a[0][0]
  | 2, a => a[0][0] * a[1][1] - a[1][0] * a[0][1]
  | 3, a =>
    let first := a[1][1] * a[2][2] - a[2][1] * a[1][2]
    let second := a[1][0] * a[2][2] - a[2][0] * a[1][2]
    let third := a[1][0] * a[2][1] - a[2][0] * a[1][1]
    a[0][0] * first - a[0][1] * second + a[0][2] * third
  | _, a => eliminationDeterminant a

end Pivotal.Diagnostics
