import Pivotal.Diagnostics.Residual
import Pivotal.Elimination.Constant
import Pivotal.Linear.Coefficients
import Pivotal.Linear.Config
import Pivotal.Linear.Report

/-!
# Linear systems with their configuration and results

A `LinearSystem` holds coefficients, free terms, names of the unknowns and a configuration, and
remembers what its last solves gave.  `solver` starts the statistics anew; a solve that fails leaves
the earlier result, residual and formulas as they were.
-/

namespace Pivotal.Linear

open Pivotal.Task (Section Value Document)

/-- Solution formulas together with the cells they read. -/
structure SymbolicResult where
  formulas : List Expr
  memory : Memory Complex

/-- The values of the formulas. -/
def SymbolicResult.values (r : SymbolicResult) : List Complex :=
  Expr.values r.memory.read r.formulas

/-- A system and what is known of its solution. -/
structure LinearSystem where
  coefficients : Grid Complex
  terms : Array Complex
  /-- Names of the unknowns, used in reports. -/
  unknowns : List String
  config : Config
  result : Option (Array Complex) := none
  symbolicResult : Option SymbolicResult := none
  identities : List Nat := []
  residual : Option Float := none
  statistics : Dict String := ∅

/-- The default name of an unknown. -/
def defaultName (k : Nat) : String := s!"x{k}"

namespace LinearSystem

/-! ## Building a system -/

/-- A system with the names `x0`, `x1`, …; the dimensions are checked first, then the log level. -/
def new (coefficients : Grid Complex) (terms : Array Complex) (config : Config) :
    Except Refusal LinearSystem :=
  match dimensionFault? coefficients.rows coefficients.cols terms.size with
  | some f => .error (.unsolvable f)
  | none =>
    match config.level with
    | .error f => .error (.invalid f)
    | .ok _ =>
      .ok { coefficients, terms, config, unknowns := (List.range terms.size).map defaultName }

/-- Renames the unknowns; there must be a name for each. -/
def setUnknowns (s : LinearSystem) (names : List String) : Except Refusal LinearSystem :=
  if names.length = s.terms.size then .ok { s with unknowns := names }
  else .error (.invalid (.nameCount names.length s.terms.size))

/-- The free terms of a `system` section. -/
def freeTerms (s : Section Value) : Except TaskFault (List Complex) :=
  match (s.get? "free_terms").join with
  | some values => complexValues "free_terms" values
  | none => .error .freeTermsMissing

/-- The system of a document.  A name that reads as a number is kept in its numeric form. -/
def ofDocument (d : Document Value) : Except Refusal LinearSystem := do
  let config ← match d.get? "solver" with
    | some s => (Config.ofSection s).mapError .invalid
    | none => .ok {}
  let sec ← match d.get? "system" with
    | some s => .ok s
    | none => .error (.invalid .systemMissing)
  let a ← (Linear.coefficients sec).mapError .invalid
  let b ← (freeTerms sec).mapError .invalid
  let system ← new a b.toArray config
  match (sec.get? "unknowns").join with
  | some names => system.setUnknowns (names.map Value.render)
  | none => .ok system

/-- The system of a task.  Names of unknowns are kept as they are written. -/
def ofTask (text : String) : Except Refusal LinearSystem := do
  let document ← (Document.parseValues text).mapError (.invalid ∘ .document)
  let system ← ofDocument (document.applyTemplate taskTemplate)
  let tokens ← (Document.parseTokens text).mapError (.invalid ∘ .document)
  match tokens.values? "system" "unknowns" with
  | some names => system.setUnknowns names
  | none => .ok system

/-! ## Solving -/

/-- What one solve gives: its outcome and the system afterwards. -/
structure Attempt where
  outcome : Except Refusal (Array Complex)
  system : LinearSystem

/-- Records a solution with its residual and its statistics; `elapsed` is the time it took, in
milliseconds. -/
def record (s : LinearSystem) (x : Array Complex) (elapsed : Float) : Attempt :=
  let residual := (Diagnostics.residualNorm? s.coefficients x s.terms).getD (0 / 0)
  ⟨.ok x,
    { s with
      result := some x
      residual := some residual
      statistics := s.statistics.putAll
        [("number of equations", toString s.terms.size), ("method", s.config.method.name),
          ("time elapsed, ms", String.ofList (Decimal.fixedText 3 elapsed)),
          ("residual norm", String.ofList (Decimal.fixedScientificText 3 residual))] }⟩

def solveNumeric (s : LinearSystem) (elapsed : Float) : Attempt :=
  let identities :=
    if s.config.ignoreIdentities then Elimination.identityEquations s.coefficients s.terms else []
  let s :=
    { s with
      identities
      statistics := s.statistics.put "identity equations removed" (toString identities.length) }
  match (Elimination.solve s.coefficients s.terms s.config.ignoreIdentities).outcome with
  | .error f => ⟨.error (.unsolvable f), s⟩
  | .ok (x, _) => s.record x elapsed

/-- Size of the largest formula, each list of operands counted once. -/
def largestFormula (formulas : List Expr) : Nat :=
  formulas.foldl (fun k e => max k e.distinctCount) 0

def solveSymbolic (s : LinearSystem) (elapsed : Float) : Attempt :=
  let s := { s with identities := [] }
  match (Elimination.solveConstants s.coefficients s.terms).outcome with
  | .error f => ⟨.error (.unsolvable f), s⟩
  | .ok r =>
    let formulas := r.formulas.toList
    let symbolic : SymbolicResult :=
      ⟨formulas, Elimination.constantMemory s.coefficients s.terms⟩
    let s :=
      { s with
        symbolicResult := some symbolic
        statistics :=
          s.statistics.put "largest solution tree, nodes" (toString (largestFormula formulas)) }
    s.record symbolic.values.toArray elapsed

/-- Solves with the configured method; the statistics start anew.  How long it takes, in
milliseconds, is seen in the statistics only, and is zero where nobody measures it. -/
def solver (s : LinearSystem) (elapsed : Float := 0) : Attempt :=
  let s := { s with statistics := ∅ }
  match s.config.method with
  | .numeric => s.solveNumeric elapsed
  | .symbolic => s.solveSymbolic elapsed

/-- Solves after checking the log level, which changes nothing if it is refused. -/
def solve (s : LinearSystem) (elapsed : Float := 0) : Attempt :=
  match s.config.level with
  | .error f => ⟨.error (.invalid f), s⟩
  | .ok _ => s.solver elapsed

/-- The text of the saved result, with commas for a file name that ends in `.csv`. -/
def report (s : LinearSystem) (fileName : String) : Except ReportFault String :=
  match s.result with
  | none => .error .notSolved
  | some x => Report.table (.ofFileName fileName) s.unknowns x.toList

end LinearSystem

end Pivotal.Linear
