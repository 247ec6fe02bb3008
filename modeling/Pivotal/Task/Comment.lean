import Pivotal.Text.Blank

/-!
# Comments

A line is cut at its first semicolon, and at the first `//` that starts the line or follows a
blank.  What is left is trimmed; lines that are then empty, or that start with `//`, `#` or `%`, are
dropped.
-/

namespace Pivotal.Task

open Text (isBlank trim lines)

/-- Cuts before the first `//` that follows a blank; the flag says whether a blank, or the start of
the line, comes before the text. -/
def cutSlashes (afterBlank : Bool) : List Char → List Char
  | [] => []
  | c :: cs =>
    if afterBlank ∧ c = '/' ∧ cs.head? = some '/' then [] else c :: cutSlashes (isBlank c) cs

/-- A line without its comment. -/
def cutComment (line : List Char) : List Char := cutSlashes true (line.takeWhile (· ≠ ';'))

/-- Whether a trimmed line is a comment or empty. -/
def isDropped (line : List Char) : Bool :=
  line.isEmpty || ['/', '/'].isPrefixOf line || line.head? = some '#' || line.head? = some '%'

/-- The lines that remain. -/
def keptLines (text : List Char) : List (List Char) :=
  ((lines text).map fun line => trim (cutComment line)).filter fun line => !isDropped line

/-- A text without comments, blank lines and indentation. -/
def filterComments (text : List Char) : List Char := ['\n'].intercalate (keptLines text)

end Pivotal.Task
