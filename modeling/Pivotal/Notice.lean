import Pivotal.Decimal.Layout

/-!
# Notices

What a computation reports beside its result: the steps that a reader following the elimination
wants to see (`debug`) and the findings that make a result doubtful (`warn`).
-/

namespace Pivotal

/-- How important a notice is. -/
inductive Level where
  | debug
  | info
  | warn
  | error
  deriving DecidableEq, Repr

/-- The name of a level. -/
def Level.name : Level → String
  | .debug => "DEBUG"
  | .info => "INFO"
  | .warn => "WARN"
  | .error => "ERROR"

/-- One report of a running computation. -/
inductive Notice where
  /-- An equation `0 = 0` was taken out of the active system. -/
  | identityRetired (equation : Nat)
  /-- An equation with a larger coefficient became the pivot equation of a column. -/
  | pivotExchanged (column chosen displaced : Nat)
  /-- A variable has no non-zero coefficient left. -/
  | noPivotForVariable (column : Nat)
  /-- A zero on the diagonal was replaced by exchanging two rows. -/
  | rowsExchanged (row other : Nat)
  /-- No row below has a non-zero entry in the pivot column. -/
  | noPivotForRow (row : Nat)
  | ranksDiffer (coefficients augmented : Nat)
  | singularMatrix (determinant : Float)
  | poorlyConditioned (condition : Float)
  | solvableButPoorlyConditioned
  | unsolvable

namespace Notice

def level : Notice → Level
  | .identityRetired _ => .debug
  | .pivotExchanged _ _ _ => .debug
  | .rowsExchanged _ _ => .debug
  | _ => .warn

def message : Notice → String
  | .identityRetired k => s!"equation {k} is an identity, moved out of the active system"
  | .pivotExchanged c k d => s!"pivot for column {c}: equation {k} swapped with equation {d}"
  | .noPivotForVariable c => s!"no non-zero pivot found for variable {c}: system is singular"
  | .rowsExchanged r s => s!"zero pivot in row {r}, swapping with row {s}"
  | .noPivotForRow r => s!"no non-zero pivot found for row {r}: system is singular"
  | .ranksDiffer a b => s!"The system has no solution. rank(A) = {a} != rank([A b]) = {b}"
  | .singularMatrix d =>
    "Matrix is singular. |Determinant| = " ++ String.ofList (Decimal.fixedText 8 d)
  | .poorlyConditioned k =>
    "The system of linear equations is poorly conditioned. Condition number = " ++
      String.ofList (Decimal.fixedText 2 k)
  | .solvableButPoorlyConditioned =>
    "The system of linear equations has a solution and the coefficient matrix is poorly " ++
      "conditioned."
  | .unsolvable => "The system of linear equations does not have a solution."

end Notice

end Pivotal
