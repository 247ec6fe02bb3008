import Pivotal.Elimination.Fault
import Pivotal.Notice
import Pivotal.Pivoting

/-!
# Elimination over scalars

Rows and columns are never moved.  A `Tableau` keeps the caller's buffers and looks at them through
a row order and a column order: the logical entry `(i, j)` is stored in row `rowOrder i`, column
`colOrder j`.  Exchanging two rows exchanges two places of the order, and the answer is put back
into the caller's variable order in one pass over the column order.

* `removeIdentities` moves each equation `0 = 0` (row, column and free term all zero) behind the
  active part, together with its variable, and counts them;
* `step i` brings the row of greatest magnitude in column `i` to place `i`, the first of several,
  divides it by its pivot, and subtracts its multiples from the active rows below;
* `substituteBack` carries the solved values upwards, touching free terms only;
* `scatter` writes the values in the caller's variable order, zero for the retired variables.
-/

namespace Pivotal.Elimination

variable {α : Type u} {n : Nat}

/-- The caller's buffers seen through a row order and a column order. -/
structure Tableau (α : Type u) (n : Nat) where
  coefficients : Table α n n
  terms : Vector α n
  rowOrder : Vector (Fin n) n
  colOrder : Vector (Fin n) n
  /-- Number of equations that take part in the elimination. -/
  active : Nat
  active_le : active ≤ n
  /-- What has been reported so far, oldest first. -/
  notices : List Notice

namespace Tableau

/-- The system in the caller's order, all equations active. -/
def ofSystem (coefficients : Table α n n) (terms : Vector α n) : Tableau α n where
  coefficients
  terms
  rowOrder := Vector.ofFn id
  colOrder := Vector.ofFn id
  active := n
  active_le := Nat.le_refl n
  notices := []

/-- The caller's row in place `i`. -/
def rowAt (t : Tableau α n) (i : Fin n) : Fin n := t.rowOrder.get i

/-- The caller's column in place `j`. -/
def colAt (t : Tableau α n) (j : Fin n) : Fin n := t.colOrder.get j

/-- Logical entry: the coefficient of the variable in place `j` in the equation in place `i`. -/
def entry (t : Tableau α n) (i j : Fin n) : α := (t.coefficients.get (t.rowAt i)).get (t.colAt j)

/-- Logical free term: that of the equation in place `i`. -/
def term (t : Tableau α n) (i : Fin n) : α := t.terms.get (t.rowAt i)

def report (t : Tableau α n) (e : Notice) : Tableau α n := { t with notices := t.notices ++ [e] }

/-- The active places from `lo` on, in increasing order. -/
def places (t : Tableau α n) (lo : Nat) : List (Fin n) :=
  (List.finRange n).filter fun k => lo ≤ k.val && k.val < t.active

end Tableau

/-! ## Identity equations -/

/-- Row, column and free term are all exactly zero. -/
def isIdentity [Pivoting α] {m n : Nat} (a : Table α m n) (b : α) (row : Fin m) (col : Fin n) :
    Bool :=
  isZero b && (a.get row).all isZero && a.all fun r => isZero (r.get col)

/-- The equations `0 = 0` of a system of any dimensions, in increasing order. -/
def identityEquations [Pivoting α] (a : Grid α) (b : Array α) : List Nat :=
  (List.range (min (min b.size a.rows) a.cols)).filter fun k =>
    if h : k < b.size ∧ k < a.rows ∧ k < a.cols then
      isIdentity a.entries b[k] ⟨k, h.2.1⟩ ⟨k, h.2.2⟩
    else false

namespace Tableau

/-- Whether the equation in place `i`, with the variable in that place, is `0 = 0`. -/
def isIdentityAt [Pivoting α] (t : Tableau α n) (i : Fin n) : Bool :=
  isIdentity t.coefficients (t.term i) (t.rowAt i) (t.colAt i)

/-- Exchanges place `i` with the last active place, in both orders, and makes that place
inactive. -/
def retire (t : Tableau α n) (i : Nat) (h : i < t.active) : Tableau α n :=
  have hle := t.active_le
  { t with
    rowOrder := t.rowOrder.swap i (t.active - 1) (by omega) (by omega)
    colOrder := t.colOrder.swap i (t.active - 1) (by omega) (by omega)
    active := t.active - 1
    active_le := by omega }

/-- Retires every identity equation from place `i` on, and counts them on top of `removed`.  The
equation that comes into place `i` is looked at next. -/
def removeIdentities [Pivoting α] (t : Tableau α n) (i removed : Nat) : Tableau α n × Nat :=
  if h : i < t.active then
    let place : Fin n := ⟨i, Nat.lt_of_lt_of_le h t.active_le⟩
    if t.isIdentityAt place then
      removeIdentities ((t.retire i h).report (.identityRetired (t.rowAt place))) i (removed + 1)
    else removeIdentities t (i + 1) removed
  else (t, removed)
termination_by t.active - i
decreasing_by
  · simp only [report, retire]
    omega
  · omega

/-! ## Forward elimination -/

/-- The first active row from place `i` on whose entry in column `i` no other outweighs. -/
def bestRow [Pivoting α] (t : Tableau α n) (i : Fin n) : Fin n :=
  (t.places (i.val + 1)).foldl
    (fun best j => if outweighs (t.entry j i) (t.entry best i) then j else best) i

/-- Brings the best row to place `i`. -/
def exchange (t : Tableau α n) (i best : Fin n) : Tableau α n :=
  if best = i then t
  else
    { t with rowOrder := t.rowOrder.swap i best i.isLt best.isLt }.report
      (.pivotExchanged (t.colAt i) (t.rowAt best) (t.rowAt i))

/-- Divides row `i` by its pivot, from column `i` on. -/
def normalize [Div α] (t : Tableau α n) (i : Fin n) : Tableau α n :=
  let pivot := t.entry i i
  let r := t.rowAt i
  { t with
    coefficients := put t.coefficients r
      ((t.places i.val).foldl (fun row k => put row (t.colAt k) (row.get (t.colAt k) / pivot))
        (t.coefficients.get r))
    terms := put t.terms r (t.terms.get r / pivot) }

/-- Subtracts from row `j` the multiple of row `i` that clears column `i`.  The cleared entry is
not written, and a multiple of zero is left out. -/
def reduceRow [Sub α] [Mul α] [Pivoting α] (t : Tableau α n) (i j : Fin n) : Tableau α n :=
  let factor := t.entry j i
  if isZero factor then t
  else
    let source := t.coefficients.get (t.rowAt i)
    let r := t.rowAt j
    { t with
      coefficients := put t.coefficients r
        ((t.places (i.val + 1)).foldl
          (fun row k =>
            put row (t.colAt k) (row.get (t.colAt k) - factor * source.get (t.colAt k)))
          (t.coefficients.get r))
      terms := put t.terms r (t.terms.get r - factor * t.term i) }

/-- Clears column `i` below row `i`. -/
def reduceBelow [Sub α] [Mul α] [Pivoting α] (t : Tableau α n) (i : Fin n) : Tableau α n :=
  (t.places (i.val + 1)).foldl (fun t j => t.reduceRow i j) t

/-- A run that found no pivot: the step and the tableau it had reached. -/
structure Breakdown (α : Type u) (n : Nat) where
  row : Nat
  tableau : Tableau α n

/-- Brings a pivot to place `i`, or reports that column `i` has none. -/
def selectPivot [Pivoting α] (t : Tableau α n) (i : Fin n) :
    Except (Breakdown α n) (Tableau α n) :=
  let best := t.bestRow i
  if isZero (t.entry best i) then .error ⟨i, t.report (.noPivotForVariable (t.colAt i))⟩
  else .ok (t.exchange i best)

/-- One step of the forward elimination. -/
def step [Sub α] [Mul α] [Div α] [Pivoting α] (t : Tableau α n) (i : Fin n) :
    Except (Breakdown α n) (Tableau α n) :=
  (t.selectPivot i).map fun t => (t.normalize i).reduceBelow i

/-- Unit upper triangular form of the active part. -/
def eliminate [Sub α] [Mul α] [Div α] [Pivoting α] (t : Tableau α n) :
    Except (Breakdown α n) (Tableau α n) :=
  (t.places 0).foldlM step t

/-! ## Back substitution -/

/-- Takes the solved value of place `i` out of the free term of row `j`. -/
def discharge [Sub α] [Mul α] (t : Tableau α n) (i j : Fin n) (solved : α) : Tableau α n :=
  { t with terms := put t.terms (t.rowAt j) (t.term j - t.entry j i * solved) }

/-- Takes the solved value of place `i` out of the rows above it, from below upwards. -/
def dischargeAbove [Sub α] [Mul α] (t : Tableau α n) (i : Fin n) : Tableau α n :=
  let solved := t.term i
  ((List.finRange n).filter (· < i)).reverse.foldl (fun t j => t.discharge i j solved) t

/-- Solves a unit upper triangular system, from the last row upwards. -/
def substituteBack [Sub α] [Mul α] (t : Tableau α n) : Tableau α n :=
  (t.places 0).reverse.foldl dischargeAbove t

/-- The free terms in the caller's variable order, zero for a retired variable. -/
def scatter [Zero α] (t : Tableau α n) : Vector α n :=
  (t.places 0).foldl (fun x k => put x (t.colAt k) (t.term k)) (Vector.replicate n 0)

end Tableau

/-! ## The engine -/

/-- The tableau a run starts from; with `ignoreIdentities` the equations `0 = 0` are retired. -/
def Tableau.start [Pivoting α] (coefficients : Table α n n) (terms : Vector α n)
    (ignoreIdentities : Bool) : Tableau α n :=
  let t := Tableau.ofSystem coefficients terms
  if ignoreIdentities then (t.removeIdentities 0 0).1 else t

/-- The caller's buffers when a run has ended, and what it answers. -/
structure Ending (α : Type u) (n : Nat) where
  coefficients : Table α n n
  /-- The solution of a run that succeeded, otherwise what the elimination left. -/
  terms : Vector α n
  notices : List Notice
  outcome : Except Fault Unit

/-- Solves a square system in the caller's buffers. -/
def solveInPlace [Zero α] [Sub α] [Mul α] [Div α] [Pivoting α] (coefficients : Table α n n)
    (terms : Vector α n) (ignoreIdentities : Bool) : Ending α n :=
  match (Tableau.start coefficients terms ignoreIdentities).eliminate with
  | .error b =>
    ⟨b.tableau.coefficients, b.tableau.terms, b.tableau.notices, .error (.singular b.row)⟩
  | .ok t =>
    let t := t.substituteBack
    ⟨t.coefficients, t.scatter, t.notices, .ok ()⟩

/-- What a run leaves: the solution, and the coefficients as they stand in the caller's buffer. -/
structure Solution (α : Type u) (n : Nat) where
  values : Vector α n
  coefficients : Table α n n

/-- The notices of a run beside its outcome. -/
structure Run (β : Type u) where
  notices : List Notice
  outcome : Except Fault β

/-- Solves a square system; with `ignoreIdentities` the equations `0 = 0` are retired first. -/
def solveSquare [Zero α] [Sub α] [Mul α] [Div α] [Pivoting α] (coefficients : Table α n n)
    (terms : Vector α n) (ignoreIdentities : Bool) : Run (Solution α n) :=
  let e := solveInPlace coefficients terms ignoreIdentities
  ⟨e.notices, e.outcome.map fun _ => ⟨e.terms, e.coefficients⟩⟩

/-- Solves a system of any dimensions. -/
def solve [Zero α] [Sub α] [Mul α] [Div α] [Pivoting α] (a : Grid α) (b : Array α)
    (ignoreIdentities : Bool) : Run (Array α × Grid α) :=
  match Square.ofGrid a b with
  | .error f => ⟨[], .error f⟩
  | .ok s =>
    let run := solveSquare s.coefficients s.terms ignoreIdentities
    ⟨run.notices,
      run.outcome.map fun x => (x.values.toArray, ⟨s.size, s.size, x.coefficients⟩)⟩

end Pivotal.Elimination
