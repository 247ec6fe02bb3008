import Pivotal.Diagnostics.Bidiagonal
import Pivotal.Diagnostics.Rotation

/-!
# Singular values

The bidiagonal form of a matrix is brought to a diagonal one by rotations from both sides, and the
diagonal holds the singular values.  An entry beside the diagonal that is small against its
neighbours counts as zero, and so splits the matrix; a zero on the diagonal is used to clear its row
and its column.  On the last block that does not split, two rows are solved at once, and more are
swept: a shift by an eigenvalue of the trailing corner makes the last entry beside the diagonal
shrink.  The entries are divided by the largest one first, so that squares do not overflow.
-/

namespace Pivotal.Diagnostics

namespace Bidiagonal

/-- Entries of the scaled matrix up to this bound count as zero, and so do entries beside the
diagonal of this size against their neighbours. -/
def tolerance : Float := 2.220446049250313e-16 * 5

/-- Whether the entry between `i` and `i + 1` is small against the diagonal. -/
def isNegligible (b : Bidiagonal) (i : Nat) : Bool :=
  (b.e i).abs ≤ tolerance * ((b.d (i + 1)).abs + (b.d i).abs)

/-- Moves the entry `x` of a row whose diagonal entry is zero to the right: `y` is the diagonal
entry in its column `k + 1`, and `count` columns follow. -/
def clearRow (b : Bidiagonal) (x y : Float) (k : Nat) : Nat → Bidiagonal
  | 0 => b
  | count + 1 =>
    match Rotation.clearFirst? x y with
    | none => b
    | some r =>
      let b := b.setD (k + 1) r.kept
      if count = 0 then b
      else
        clearRow (b.setE (k + 1) (b.e (k + 1) * r.cos)) (-r.sin * b.e (k + 1)) (b.d (k + 2)) (k + 1)
          count

/-- Moves the entry `y` of a column whose diagonal entry is zero upwards: `x` is the diagonal entry
in its row, the last argument. -/
def clearColumn (b : Bidiagonal) (x y : Float) : Nat → Bidiagonal
  | 0 =>
    match Rotation.clearSecond? x y with
    | none => b
    | some r => b.setD 0 r.kept
  | k + 1 =>
    match Rotation.clearSecond? x y with
    | none => b
    | some r =>
      let b := b.setD (k + 1) r.kept
      clearColumn (b.setE k (b.e k * r.cos)) (b.d k) (r.sin * b.e k) k

/-- Clears the entry beside the zero at `i` and its trace up to the column `last`. -/
def clearRightOf (b : Bidiagonal) (i last : Nat) : Bidiagonal :=
  clearRow (b.setE i 0) (b.e i) (b.d (i + 1)) i (last - i)

/-- Clears the entry above the zero at `i + 1` and its trace. -/
def clearAbove (b : Bidiagonal) (i : Nat) : Bidiagonal :=
  clearColumn (b.setE i 0) (b.d i) (b.e i) i

/-- Makes the small diagonal entry `i` zero, and clears its row up to `last` and its column. -/
def splitAt (b : Bidiagonal) (i last : Nat) : Bidiagonal :=
  let b := (b.setD i 0).clearRightOf i last
  if i = 0 then b else b.clearAbove (i - 1)

/-- Drops the settled rows at the end: the matrix and the last row that is not settled. -/
def dropSettled (b : Bidiagonal) : Nat → Bidiagonal × Nat
  | 0 => (b, 0)
  | m + 1 =>
    if b.e m == 0 || b.isNegligible m then dropSettled (b.setE m 0) m
    else if (b.d m).abs ≤ tolerance then dropSettled (b.splitAt m (m + 1)) m
    else if (b.d (m + 1)).abs ≤ tolerance then
      dropSettled ((b.setD (m + 1) 0).clearAbove m) m
    else (b, m + 1)

/-- The first row of the block that ends in `last` and does not split, looked for upwards. -/
def blockStart (b : Bidiagonal) (last : Nat) : Nat → Bidiagonal × Nat
  | 0 => (b, 0)
  | m + 1 =>
    if b.isNegligible m then (b.setE m 0, m + 1)
    else if (b.d m).abs ≤ tolerance then (b.splitAt m last, m + 1)
    else blockStart b last m

/-- The eigenvalue next to `tnn` of the symmetric matrix with the diagonal `tmm`, `tnn`. -/
def cornerEigenvalue (tmm tnn tmn : Float) : Float :=
  let sq := tmn * tmn
  if sq == 0 then tnn
  else
    let half := (tmm - tnn) * 0.5
    let root := Float.sqrt (half * half + sq)
    tnn - sq / (if half < 0 then half - root else half + root)

/-- Chases the bulge `(x, y)` down the block from the row `k`, over the given count of rows. -/
def chase (b : Bidiagonal) (start : Nat) (x y : Float) (k : Nat) : Nat → Bidiagonal
  | 0 => b
  | count + 1 =>
    match Rotation.clearSecond? x y with
    | none => b
    | some r =>
      let above := b.d k * r.cos - r.sin * b.e k
      let right := r.sin * b.d k + b.e k * r.cos
      let below := -r.sin * b.d (k + 1)
      let corner := b.d (k + 1) * r.cos
      let next := if count = 0 then 0 else b.e (k + 1)
      let b := if start < k then b.setE (k - 1) r.kept else b
      let q := (Rotation.clearSecond? above below).getD ⟨1, 0, above⟩
      let beside := right * q.cos - q.sin * corner
      let b := ((b.setD k q.kept).setD (k + 1) (q.sin * right + corner * q.cos)).setE k beside
      let b := if count = 0 then b else b.setE (k + 1) (next * q.cos)
      chase b start beside (-q.sin * next) (k + 1) count

/-- One sweep over the rows `start` to `last`, three at least. -/
def sweep (b : Bidiagonal) (start last : Nat) : Bidiagonal :=
  let dm := b.d (last - 1)
  let dn := b.d last
  let fm := b.e (last - 1)
  let fl := b.e (last - 2)
  let shift := cornerEigenvalue (dm * dm + fl * fl) (dn * dn + fm * fm) (dm * fm)
  b.chase start (b.d start * b.d start - shift) (b.d start * b.e start) start (last - start)

/-- Solves the two rows `start` and `start + 1`. -/
def solvePair (b : Bidiagonal) (start : Nat) : Bidiagonal :=
  let p := b.d start
  let q := b.e start
  let r := b.d (start + 1)
  let twice := (Complex.mk (p + r) q).magnitude + (Complex.mk (p - r) q).magnitude
  ((b.setD start (p * r * 2 / twice)).setD (start + 1) (0.5 * twice)).setE start 0

/-- Settles the rows up to `last`; none when the sweeps do not come to an end in time. -/
def settle? : Nat → Bidiagonal → Nat → Option Bidiagonal
  | 0, _, _ => none
  | fuel + 1, b, last =>
    match b.dropSettled last with
    | (b, 0) => some b
    | (b, n + 1) =>
      let (b, start) := b.blockStart (n + 1) n
      if start = n then settle? fuel (b.solvePair start) n
      else settle? fuel (b.sweep start (n + 1)) (n + 1)

end Bidiagonal

/-- The larger of two numbers, one that is not a number giving way to the other. -/
def larger (x y : Float) : Float := if x.isNaN || x < y then y else x

/-- The largest sum of the magnitudes of both parts of an entry. -/
def largestEntry (a : Grid Complex) : Float :=
  (a.toLists.flatten.map fun z => z.re.abs + z.im.abs).foldl larger 0

/-- The singular values of a matrix, as many as the smaller of its dimensions, in no order; none
when the sweeps do not come to an end in time. -/
def singularValues? (a : Grid Complex) : Option (List Float) :=
  let big := largestEntry a
  let b := Bidiagonal.ofGrid (if big == 0 then a else a.map (unscale big))
  let size := b.diagonal.size
  (Bidiagonal.settle? (1000 * size + 1) b (size - 1)).map fun b =>
    b.diagonal.toList.map fun x => (x * big).abs

end Pivotal.Diagnostics
