import Pivotal.Elimination.Symbolic
import Pivotal.Expr.Memory

/-!
# Numeric systems as systems of constants

Every number of a system becomes a leaf over a cell of its own: the coefficients row by row, then
the free terms.
-/

namespace Pivotal.Elimination

variable {α : Type u}

/-- The numbers of a system in the order of their cells. -/
def constantMemory (a : Grid α) (b : Array α) : Memory α :=
  { cells := a.entries.toArray.flatMap Vector.toArray ++ b }

/-- The coefficients as leaves. -/
def constantGrid (a : Grid α) : Grid Expr :=
  Grid.tabulate a.rows a.cols fun i j => .leaf ⟨none, i.val * a.cols + j.val⟩

/-- The free terms as leaves, after the cells of `a`. -/
def constantTerms (a : Grid α) (b : Array α) : Array Expr :=
  (Array.range b.size).map fun k => .leaf ⟨none, a.rows * a.cols + k⟩

/-- Solves a numeric system symbolically. -/
def solveConstants [Zero α] [One α] [Add α] [Mul α] [Neg α] [Inv α] [Pivoting α]
    (a : Grid α) (b : Array α) : Run Formulas :=
  solveSymbolic (constantMemory a b).read (constantGrid a) (constantTerms a b) 0

end Pivotal.Elimination
