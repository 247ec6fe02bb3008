import Pivotal.Demo

/-!
# The command line

`<task file> [output file]` solves a task, prints the solution and saves it if a second file is
named; `--example <n>` runs a demonstration, and so does a call without arguments.  Files are
reached through a `Files` record, so the program can run on any collection of files.
-/

namespace Pivotal

/-- Access to files by name. -/
structure Files (m : Type → Type) where
  read : String → m (Except FileFault ByteArray)
  write : String → String → m (Except FileFault Unit)

/-- The text of a file. -/
def Files.readText {m : Type → Type} [Monad m] (files : Files m) (path : String) :
    m (Except FileFault String) := do
  match ← files.read path with
  | .error f => return .error f
  | .ok bytes =>
    match String.fromUTF8? bytes with
    | some text => return .ok text
    | none => return .error .notText

namespace Linear

/-- The text of a task file. -/
def readTask {m : Type → Type} [Monad m] (files : Files m) (path : String) :
    m (Except TaskFault String) := do
  return (← files.readText path).mapError (.file path)

/-- The system of a task file. -/
def LinearSystem.ofTaskFile {m : Type → Type} [Monad m] (files : Files m) (path : String) :
    m (Except Refusal LinearSystem) := do
  match ← readTask files path with
  | .error f => return .error (.invalid f)
  | .ok text => return LinearSystem.ofTask text

/-- Why a result was not saved. -/
inductive SaveFault where
  | report (fault : ReportFault)
  | file (fault : FileFault)

def SaveFault.message : SaveFault → String
  | .report f => f.message
  | .file f => f.message

/-- Writes the text of a report to a file; without a report no file is touched. -/
def save {m : Type → Type} [Monad m] (files : Files m) (path : String)
    (report : Except ReportFault String) : m (Except SaveFault String) := do
  match report with
  | .error f => return .error (.report f)
  | .ok text =>
    match ← files.write path text with
    | .error f => return .error (.file f)
    | .ok () => return .ok text

end Linear

namespace CommandLine

open Linear

/-- What a run of the program leaves. -/
structure Outcome where
  code : UInt32
  out : String := ""
  err : String := ""

/-- A line of the printed solution. -/
def solutionLine (name : String) (z : Complex) : String :=
  s!"{name} = " ++ String.ofList z.full ++ "\n"

/-- Saves the result if an output file is named. -/
def finish {m : Type → Type} [Monad m] (files : Files m) (system : LinearSystem) (printed : String)
    (output : Option String) : m Outcome := do
  match output with
  | none => return { code := 0, out := printed }
  | some path =>
    match ← save files path (system.report path) with
    | .error f =>
      let err := s!"cannot save result to {path}: " ++ f.message ++ "\n"
      return { code := 1, out := printed, err }
    | .ok _ => return { code := 0, out := printed ++ s!"result saved to {path}\n" }

/-- Solves a task file. -/
def solveFile {m : Type → Type} [Monad m] (files : Files m) (path : String)
    (output : Option String) : m Outcome := do
  match ← LinearSystem.ofTaskFile files path with
  | .error e => return { code := 1, err := e.message ++ "\n" }
  | .ok system =>
    let attempt := system.solve
    match attempt.outcome with
    | .error e => return { code := 1, err := e.message ++ "\n" }
    | .ok x =>
      finish files attempt.system
        (String.join (List.zipWith solutionLine attempt.system.unknowns x.toList)) output

/-- The number of a demonstration; anything but a number stands for the first one. -/
def demoNumber (arg : Option String) : Nat :=
  (arg.bind fun s => Decimal.readNat? s.toList).getD 0

/-- Runs the program on its arguments. -/
def run {m : Type → Type} [Monad m] (files : Files m) (args : List String) : m Outcome :=
  match args with
  | [] => return { code := 0, out := Demo.output 0 }
  | first :: rest =>
    if first = "--example" then return { code := 0, out := Demo.output (demoNumber rest.head?) }
    else solveFile files first rest.head?

end CommandLine

end Pivotal
