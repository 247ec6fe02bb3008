import Pivotal.Circuit
import Pivotal.Expr.Text
import Pivotal.Linear.Basic

/-!
# Demonstrations

Three small problems that show what the library does, each as the text it prints: a circuit solved
once and evaluated for several element values, a low-pass filter swept over frequency, and a network
with disconnected nodes.
-/

namespace Pivotal.Demo

open Decimal (fixedText fixedScientificText floatText)

/-- A text filled up with spaces on the left. -/
def padLeft (width : Nat) (cs : List Char) : String :=
  String.ofList (List.replicate (width - cs.length) ' ' ++ cs)

def shown (cs : List Char) : String := String.ofList cs

/-- The voltages of the two-node circuit as formulas, then their values while the current and one
conductance grow. -/
def circuit : List String :=
  let m : Memory Complex := {}
  let (current, m) := m.newLeaf (some "I") ⟨1, 0⟩
  let (g1, m) := m.newLeaf (some "G1") ⟨0.1, 0⟩
  let (g2, m) := m.newLeaf (some "G2") ⟨0.2, 0⟩
  let (g3, m) := m.newLeaf (some "G3") ⟨0.5, 0⟩
  let (system, m) := m.build (Circuit.twoNodes (.leaf current) (.leaf g1) (.leaf g2) (.leaf g3))
  match (Elimination.solveSymbolic m.read system.coefficients system.terms m.lists).outcome with
  | .error f => ["circuit cannot be solved: " ++ f.message]
  | .ok solution =>
    let voltages := solution.formulas.toList
    let formulas := List.zipWith (fun k (e : Expr) => s!"U{k} = " ++ shown (e.text m.read)) [1, 2]
      voltages
    let steps := [1, 2, 3, 4, 5].map fun (k : Nat) =>
      let step := Float.ofNat k
      let m := (m.write current ⟨step, 0⟩).write g3 ⟨0.1 * step, 0⟩
      let u := (Expr.values m.read voltages).map fun z => shown (z.roundTo 1e-6).pretty
      s!"I = {shown (m.read current.cell).pretty} A, G3 = {shown (m.read g3.cell).pretty} S: " ++
        ", ".intercalate (List.zipWith (fun k text => s!"U{k} = {text} V") [1, 2] u)
    formulas ++ steps

/-- The voltage behind a resistor of a kiloohm and a capacitor of a microfarad, for five
frequencies, against the closed form. -/
def lowPass : List String :=
  let resistance : Float := 1e3
  let capacity : Float := 1e-6
  let m : Memory Complex := {}
  let (source, m) := m.newLeaf (some "Us") ⟨1, 0⟩
  let (conductance, m) := m.newLeaf (some "1/R") ⟨1 / resistance, 0⟩
  let (susceptance, m) := m.newLeaf (some "jwC") ⟨0, 0⟩
  let (a, m) := m.build (Expr.join .sum (.leaf conductance) (.leaf susceptance))
  let (b, m) := m.build (Expr.join .product (.leaf source) (.leaf conductance))
  match (Elimination.solveSymbolic m.read ⟨1, 1, #v[#v[a]]⟩ #[b] m.lists).outcome with
  | .error f => ["filter cannot be solved: " ++ f.message]
  | .ok solution =>
    solution.formulas.toList.flatMap fun u =>
      let sweep := [10, 100, 159.15, 1e3, 1e4].map fun (f : Float) =>
        let w := 2 * Complex.pi * f
        let m := m.write susceptance ⟨0 * w * capacity, 1 * w * capacity⟩
        let value := u.value m.read
        let exact : Complex := 1 / ⟨1, w * resistance * capacity⟩
        s!"f = {padLeft 8 (floatText .plain f)} Hz: " ++
          s!"|U| = {shown (fixedText 6 value.magnitude)}, " ++
          s!"phase = {padLeft 8 (fixedText 3 value.degrees)} deg, " ++
          s!"error = {shown (fixedScientificText 2 (value - exact).magnitude)}"
      ("U = " ++ shown (u.text m.read)) :: sweep

/-- The task of the network with disconnected nodes. -/
def networkTask : String :=
  "
            solver
            method: numeric
            ignore_identity_equations: true
            loglevel: info
            system
            unknowns: u1, u2, u3, u4, u5, u6
            row0: 1, 2, 0, 1, 0, 1
            row1: 1, 1, 0, 0, 0, 1
            row2: 0, 0, 0, 0, 0, 0
            row3: 1, 0, 0, 0, 0, 2
            row4: 0, 0, 0, 0, 0, 0
            row5: 2, 1, 0, 0, 0, 0
            free_terms: 0, 0, 0, 5, 0, 4
            "

/-- Disconnected nodes give equations `0 = 0`, without whose removal the system is singular. -/
def network : List String :=
  match Linear.LinearSystem.ofTask networkTask with
  | .error e => ["invalid task: " ++ e.message]
  | .ok system =>
    let attempt := system.solve
    let solved := match attempt.outcome with
      | .error e => ["solution failed: " ++ e.message]
      | .ok x =>
        let places := ", ".intercalate (attempt.system.identities.map toString)
        s!"identity equations: [{places}]" ::
          List.zipWith (fun name (z : Complex) => s!"{name} = " ++ shown (z.roundTo 1e-9).pretty)
            attempt.system.unknowns x.toList
    let config := { attempt.system.config with ignoreIdentities := false }
    let again := match ({ attempt.system with config }).solver.outcome with
      | .error e => ["without identity removal: " ++ e.message]
      | .ok _ => []
    solved ++ again

/-- The lines that a demonstration prints. -/
def lines : Nat → List String
  | 0 => circuit
  | 1 => lowPass
  | 2 => network
  | n => [s!"example {n} does not exist"]

/-- What a demonstration prints. -/
def output (n : Nat) : String := String.join ((lines n).map (· ++ "\n"))

end Pivotal.Demo
