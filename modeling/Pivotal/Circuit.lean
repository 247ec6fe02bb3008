import Pivotal.Expr.Basic
import Pivotal.Grid

/-!
# A circuit with two nodes

A current source feeds node 1; one conductance leads from node 1 to ground, one joins the nodes, and
one leads from node 2 to ground.  The node voltages solve the admittance system of the circuit.
-/

namespace Pivotal.Circuit

/-- Coefficients and free terms of a system of expressions. -/
structure Admittance where
  coefficients : Grid Expr
  terms : Array Expr

/-- The admittance system: `current` into node 1, `g1` and `g3` to ground, `g2` between the
nodes. -/
def twoNodes (current g1 g2 g3 : Expr) : Supply Admittance := do
  let a00 ← g1.join .sum g2
  let a01 ← g2.invert .sum
  let a10 ← g2.invert .sum
  let a11 ← g2.join .sum g3
  let b1 ← Expr.group .sum false []
  return ⟨⟨2, 2, #v[#v[a00, a01], #v[a10, a11]]⟩, #[current, b1]⟩

end Pivotal.Circuit
