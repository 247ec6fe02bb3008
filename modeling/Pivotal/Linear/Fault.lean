import Pivotal.Elimination.Fault
import Pivotal.Task.Document

/-!
# Why a task is refused

A task is refused for what is wrong with its text, its configuration or its numbers (`TaskFault`),
or because the system it states cannot be solved (`Fault`).
-/

namespace Pivotal

/-- Why a file could not be read or written. -/
inductive FileFault where
  | notFound
  | isDirectory
  /-- The bytes are not the text of any string. -/
  | notText
  /-- Anything else the file system reports. -/
  | other (reason : String)
  deriving DecidableEq, Repr

def FileFault.message : FileFault → String
  | .notFound => "No such file or directory (os error 2)"
  | .isDirectory => "Is a directory (os error 21)"
  | .notText => "stream did not contain valid UTF-8"
  | .other reason => reason

namespace Linear

/-- What is wrong with a task. -/
inductive TaskFault where
  | file (path : String) (fault : FileFault)
  | document (fault : Task.DocumentFault)
  | unknownKey (key title : String)
  | singleValueExpected (key : String) (count : Nat)
  | truthExpected (key value : String)
  | unknownMethod (name : String)
  | unknownLevel (name : String)
  | notANumber (value key : String)
  /-- The row keys of a task with `count` rows are not numbered from zero. -/
  | rowNumbering (count : Nat)
  | noCoefficients
  | raggedRow (row count expected : Nat)
  | systemMissing
  | freeTermsMissing
  | nameCount (names unknowns : Nat)
  deriving DecidableEq, Repr

def TaskFault.message : TaskFault → String
  | .file path f => s!"Cannot read task file {path}: " ++ f.message
  | .document f => f.message
  | .unknownKey key title => s!"unknown key '{key}' in section '{title}'"
  | .singleValueExpected key n => s!"key '{key}' expects a single value, got {n}"
  | .truthExpected key value => s!"key '{key}' must be true or false, got '{value}'"
  | .unknownMethod name => s!"unknown method '{name}', expected symbolic or numeric"
  | .unknownLevel name => s!"loglevel must be debug, info, warn, error or off, got '{name}'"
  | .notANumber value key => s!"'{value}' in '{key}' is not a number"
  | .rowNumbering n => "rows must be numbered row0..row" ++ toString (n - 1)
  | .noCoefficients => "section 'system' has no coefficients"
  | .raggedRow row n expected => s!"row{row} has {n} coefficients, row0 has {expected}"
  | .systemMissing => "section 'system' is missing"
  | .freeTermsMissing => "key 'free_terms' is missing"
  | .nameCount n k => s!"{n} names given for {k} unknowns"

/-- Why a system was not built or not solved. -/
inductive Refusal where
  | unsolvable (fault : Fault)
  | invalid (fault : TaskFault)
  deriving DecidableEq, Repr

namespace Refusal

def message : Refusal → String
  | .unsolvable f => f.message
  | .invalid f => "Invalid task: " ++ f.message

/-- Refused for its dimensions, before anything is computed. -/
def isInvalidArgument : Refusal → Bool
  | .unsolvable f => f.isInvalidArgument
  | .invalid _ => false

end Refusal

end Linear

end Pivotal
