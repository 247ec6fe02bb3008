import Pivotal.Notice
import Pivotal.Linear.Fault
import Pivotal.Text.Lower

/-!
# Configuration

How a system is to be solved: the method, whether equations `0 = 0` are removed first, and how much
is logged.  The `solver` section of a task sets it; a key that is missing keeps its default.
-/

namespace Pivotal.Linear

open Pivotal.Task (Section Value Document)

/-- Which elimination solves the system. -/
inductive Method where
  /-- The coefficients become constant leaves, and the solution a vector of formulas. -/
  | symbolic
  /-- Complex numbers with the largest pivot. -/
  | numeric
  deriving DecidableEq, Repr

namespace Method

def name : Method → String
  | .symbolic => "symbolic"
  | .numeric => "numeric"

def all : List Method := [.symbolic, .numeric]

/-- The method of a name, whatever the case of its ASCII letters. -/
def ofName? (s : String) : Option Method :=
  all.find? fun m => s.toList.map Char.toLower = m.name.toList

end Method

/-- How a system is solved. -/
structure Config where
  method : Method := .numeric
  ignoreIdentities : Bool := false
  /-- Name of the log level; none stands for `info`. -/
  logLevel : Option String := some "info"
  logToFile : Bool := false
  deriving DecidableEq, Repr

/-- The level of a lower-case name: none for `off` and `none`, which disable the log. -/
def levelOfName (name : String) : Except TaskFault (Option Level) :=
  if name = "off" ∨ name = "none" then .ok none
  else if name = "debug" then .ok (some .debug)
  else if name = "info" then .ok (some .info)
  else if name = "warn" then .ok (some .warn)
  else if name = "error" then .ok (some .error)
  else .error (.unknownLevel name)

/-- The log level of a configuration, whatever the case of its name. -/
def Config.level (c : Config) : Except TaskFault (Option Level) :=
  match c.logLevel with
  | none => .ok (some .info)
  | some name => levelOfName (Text.lower name)

/-! ## The solver section -/

/-- The keys of the `solver` section. -/
def solverKeys : List String :=
  ["method", "ignore_identity_equations", "loglevel", "log_to_file"]

/-- The one value of a key; none when the key has no values of its own. -/
def singleValue? (s : Section Value) (key : String) : Except TaskFault (Option Value) :=
  match (s.get? key).join with
  | none => .ok none
  | some [value] => .ok (some value)
  | some values => .error (.singleValueExpected key values.length)

/-- The truth value of a key. -/
def truthValue? (s : Section Value) (key : String) : Except TaskFault (Option Bool) := do
  match ← singleValue? s key with
  | none => return none
  | some value =>
    match value.asTruth? with
    | some b => return some b
    | none => throw (.truthExpected key value.render)

/-- The method of a section. -/
def methodValue? (s : Section Value) : Except TaskFault (Option Method) := do
  match ← singleValue? s "method" with
  | none => return none
  | some value =>
    match Method.ofName? value.render with
    | some m => return some m
    | none => throw (.unknownMethod value.render)

/-- Refuses a section with a key that is not in the list. -/
def checkKeys (s : Section Value) (title : String) (known : List String) :
    Except TaskFault Unit :=
  match s.keys.find? (!known.contains ·) with
  | some key => .error (.unknownKey key title)
  | none => .ok ()

/-- The configuration of a `solver` section. -/
def Config.ofSection (s : Section Value) : Except TaskFault Config := do
  checkKeys s "solver" solverKeys
  let method ← methodValue? s
  let ignoreIdentities ← truthValue? s "ignore_identity_equations"
  let level ← singleValue? s "loglevel"
  let logToFile ← truthValue? s "log_to_file"
  let defaults : Config := {}
  let config : Config :=
    { method := method.getD defaults.method
      ignoreIdentities := ignoreIdentities.getD defaults.ignoreIdentities
      logLevel := match level with
        | some value => some (Text.lower value.render)
        | none => defaults.logLevel
      logToFile := logToFile.getD defaults.logToFile }
  let _ ← config.level
  return config

/-- Every section and key that a task may have, the rows apart. -/
def taskTemplate : Document Value :=
  Dict.putAll ∅ [("solver", Document.templateSection solverKeys),
    ("system", Document.templateSection ["free_terms", "unknowns"])]

end Pivotal.Linear
