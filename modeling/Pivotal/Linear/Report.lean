import Pivotal.Complex.Text

/-!
# Saved results

A result is saved as a table with a line for each unknown: its name, both parts of its value and its
magnitude.  Fields are separated by tabs, without quoting, or by commas; a field that holds a comma,
a quote or a line end is then quoted, with its quotes doubled.
-/

namespace Pivotal.Linear

/-- Layout of a saved table. -/
inductive TableFormat where
  | commas
  | tabs
  deriving DecidableEq, Repr

/-- Why there is nothing to save. -/
inductive ReportFault where
  | notSolved
  | nameCount (names unknowns : Nat)
  deriving DecidableEq, Repr

def ReportFault.message : ReportFault → String
  | .notSolved => "the system is not solved yet"
  | .nameCount n k => s!"{n} names for {k} unknowns"

/-- A file name that ends in `.csv` asks for commas. -/
def TableFormat.ofFileName (name : String) : TableFormat :=
  if ".csv".toList.isSuffixOf name.toList then .commas else .tabs

namespace Report

def header : List (List Char) :=
  ["name".toList, "re".toList, "im".toList, "magnitude".toList]

/-- The fields of one unknown. -/
def fields (name : String) (z : Complex) : List (List Char) :=
  [name.toList, Complex.partText z.re, Complex.partText z.im, Complex.partText z.magnitude]

def needsQuotes (field : List Char) : Bool :=
  field.any fun c => c = ',' || c = '"' || c = '\r' || c = '\n'

/-- A field between quotes, its own quotes doubled. -/
def quoted (field : List Char) : List Char :=
  '"' :: field.flatMap (fun c => if c = '"' then ['"', '"'] else [c]) ++ ['"']

/-- A line of the table with its line end. -/
def line (format : TableFormat) (row : List (List Char)) : List Char :=
  match format with
  | .tabs => ['\t'].intercalate row ++ ['\n']
  | .commas => [','].intercalate (row.map fun f => if needsQuotes f then quoted f else f) ++ ['\n']

/-- The table of a solution; there must be a name for each unknown. -/
def table (format : TableFormat) (names : List String) (solution : List Complex) :
    Except ReportFault String :=
  if names.length = solution.length then
    .ok (String.ofList ((header :: List.zipWith fields names solution).flatMap (line format)))
  else .error (.nameCount names.length solution.length)

end Report

end Pivotal.Linear
