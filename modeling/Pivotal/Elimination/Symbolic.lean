import Pivotal.Elimination.Numeric
import Pivotal.Expr.Count
import Pivotal.Expr.Eval

/-!
# Elimination over expressions

The entries are expressions, and the elimination joins them by the operations of the algebra, so the
solution is a vector of formulas that can be evaluated again when the cells change.  Rows are
exchanged in place.  A pivot is chosen by its present value: the row itself if its diagonal entry is
not exactly zero, otherwise the first row below with a non-zero entry in that column.

Only what is needed later is computed: entries left of the diagonal keep what the elimination left
there, and the back substitution touches free terms only.
-/

namespace Pivotal.Elimination

variable {α : Type u} {n : Nat}

/-- The system under symbolic elimination. -/
structure FormulaTableau (n : Nat) where
  coefficients : Table Expr n n
  terms : Vector Expr n
  /-- The next free identity of a list of operands. -/
  lists : Nat
  notices : List Notice

namespace FormulaTableau

/-- The places after `i`. -/
def after (i : Fin n) : List (Fin n) := (List.finRange n).filter (i < ·)

/-- The places from `i` on. -/
def onward (i : Fin n) : List (Fin n) := (List.finRange n).filter (i ≤ ·)

/-- The places before `i`, from `i` backwards. -/
def beforeDown (i : Fin n) : List (Fin n) := ((List.finRange n).filter (· < i)).reverse

def report (t : FormulaTableau n) (e : Notice) : FormulaTableau n :=
  { t with notices := t.notices ++ [e] }

/-- Exchanges two rows and their free terms. -/
def exchange (t : FormulaTableau n) (i j : Fin n) : FormulaTableau n :=
  { t with
    coefficients := t.coefficients.swap i j i.isLt j.isLt
    terms := t.terms.swap i j i.isLt j.isLt }

/-- The row that becomes the pivot row of step `i`, if there is one. -/
def pivotRow? [Zero α] [One α] [Add α] [Mul α] [Neg α] [Inv α] [Pivoting α] (v : Nat → α)
    (t : FormulaTableau n) (i : Fin n) : Option (Fin n) :=
  (onward i).find? fun j => !isZero (((t.coefficients.get j).get i).value v)

/-- A run that found no pivot: the step and the tableau it had reached. -/
structure Breakdown (n : Nat) where
  row : Nat
  tableau : FormulaTableau n

/-- Brings a non-zero pivot to the diagonal, or reports that there is none. -/
def selectPivot [Zero α] [One α] [Add α] [Mul α] [Neg α] [Inv α] [Pivoting α] (v : Nat → α)
    (t : FormulaTableau n) (i : Fin n) : Except (Breakdown n) (FormulaTableau n) :=
  match t.pivotRow? v i with
  | none => .error ⟨i, t.report (.noPivotForRow i)⟩
  | some j => .ok (if j = i then t else (t.exchange i j).report (.rowsExchanged i j))

/-- Divides the entries of a row in the given places. -/
def divideEntries (divisor : Expr) (row : Vector Expr n) (ks : List (Fin n)) :
    Supply (Vector Expr n) :=
  ks.foldlM (fun row k => return put row k (← (row.get k).cancel .product divisor)) row

/-- Subtracts a multiple of `source` from a row in the given places. -/
def subtractEntries (factor : Expr) (source row : Vector Expr n) (ks : List (Fin n)) :
    Supply (Vector Expr n) :=
  ks.foldlM
    (fun row k =>
      return put row k (← (row.get k).cancel .sum (← (source.get k).join .product factor))) row

/-- Divides row `i` and its free term by the diagonal entry, from the diagonal on. -/
def normalize (t : FormulaTableau n) (i : Fin n) : FormulaTableau n :=
  let divisor := (t.coefficients.get i).get i
  let (row, lists) := (divideEntries divisor (t.coefficients.get i) (onward i)).run t.lists
  let (term, lists) := ((t.terms.get i).cancel .product divisor).run lists
  { t with
    coefficients := put t.coefficients i row
    terms := put t.terms i term
    lists }

/-- Subtracts from row `j` the multiple of row `i` that clears column `i`; the cleared entry is not
written. -/
def reduceRow (t : FormulaTableau n) (i j : Fin n) : FormulaTableau n :=
  let factor := (t.coefficients.get j).get i
  let (row, lists) :=
    (subtractEntries factor (t.coefficients.get i) (t.coefficients.get j) (after i)).run t.lists
  let (term, lists) :=
    (do (t.terms.get j).cancel .sum (← (t.terms.get i).join .product factor) :
      Supply Expr).run lists
  { t with
    coefficients := put t.coefficients j row
    terms := put t.terms j term
    lists }

def reduceBelow (t : FormulaTableau n) (i : Fin n) : FormulaTableau n :=
  (after i).foldl (fun t j => t.reduceRow i j) t

/-- One step of the forward elimination. -/
def step [Zero α] [One α] [Add α] [Mul α] [Neg α] [Inv α] [Pivoting α] (v : Nat → α)
    (t : FormulaTableau n) (i : Fin n) : Except (Breakdown n) (FormulaTableau n) :=
  (t.selectPivot v i).map fun t => (t.normalize i).reduceBelow i

/-- Unit upper triangular form. -/
def eliminate [Zero α] [One α] [Add α] [Mul α] [Neg α] [Inv α] [Pivoting α] (v : Nat → α)
    (t : FormulaTableau n) : Except (Breakdown n) (FormulaTableau n) :=
  (List.finRange n).foldlM (step v) t

/-- Takes the formula of place `i` out of the free term of row `j`. -/
def discharge (t : FormulaTableau n) (i j : Fin n) : FormulaTableau n :=
  let (term, lists) :=
    (do (t.terms.get j).cancel .sum
          (← (t.terms.get i).join .product ((t.coefficients.get j).get i)) :
      Supply Expr).run t.lists
  { t with terms := put t.terms j term, lists }

def dischargeAbove (t : FormulaTableau n) (i : Fin n) : FormulaTableau n :=
  (beforeDown i).foldl (fun t j => t.discharge i j) t

/-- Solves a unit upper triangular system, from the last row upwards. -/
def substituteBack (t : FormulaTableau n) : FormulaTableau n :=
  (List.finRange n).reverse.foldl dischargeAbove t

end FormulaTableau

/-- What a symbolic run leaves: the solution formulas, the coefficients as they stand, and the next
free identity. -/
structure FormulaSolution (n : Nat) where
  formulas : Vector Expr n
  coefficients : Table Expr n n
  lists : Nat

/-- Solves a square system of expressions; `v` holds the present values of the cells, and `lists` is
the next free identity of a list of operands. -/
def solveSquareSymbolic [Zero α] [One α] [Add α] [Mul α] [Neg α] [Inv α] [Pivoting α]
    (v : Nat → α) (coefficients : Table Expr n n) (terms : Vector Expr n) (lists : Nat) :
    Run (FormulaSolution n) :=
  match (FormulaTableau.mk coefficients terms lists []).eliminate v with
  | .error b => ⟨b.tableau.notices, .error (.singular b.row)⟩
  | .ok t =>
    let t := t.substituteBack
    ⟨t.notices, .ok ⟨t.terms, t.coefficients, t.lists⟩⟩

/-- Formulas of a system of any dimensions. -/
structure Formulas where
  formulas : Array Expr
  coefficients : Grid Expr
  lists : Nat

/-- Solves a system of expressions of any dimensions. -/
def solveSymbolic [Zero α] [One α] [Add α] [Mul α] [Neg α] [Inv α] [Pivoting α]
    (v : Nat → α) (a : Grid Expr) (b : Array Expr) (lists : Nat) : Run Formulas :=
  match Square.ofGrid a b with
  | .error f => ⟨[], .error f⟩
  | .ok s =>
    let run := solveSquareSymbolic v s.coefficients s.terms lists
    ⟨run.notices, run.outcome.map fun x =>
      ⟨x.formulas.toArray, ⟨s.size, s.size, x.coefficients⟩, x.lists⟩⟩

end Pivotal.Elimination
