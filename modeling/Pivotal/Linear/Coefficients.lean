import Pivotal.Linear.Fault

/-!
# Coefficients of a task

The `system` section gives the coefficients under the keys `row0`, `row1`, …, one key for each
equation, in any order.  The numbers must run from zero without a gap or a repetition, and all rows
must have the same length.
-/

namespace Pivotal.Linear

open Pivotal.Task (Section Value)

/-- The numbers of a key. -/
def complexValues (key : String) (values : List Value) : Except TaskFault (List Complex) :=
  values.mapM fun value =>
    match value.asComplex? with
    | some z => .ok z
    | none => .error (.notANumber value.render key)

/-- The number of a row key. -/
def rowIndex? (key : String) : Option Nat :=
  match key.toList with
  | 'r' :: 'o' :: 'w' :: rest => Decimal.readNat? rest
  | _ => none

/-- A row with its number. -/
structure NumberedRow where
  index : Nat
  values : List Complex

/-- The row of a key. -/
def numberedRow (key : String) (values : Option (List Value)) : Except TaskFault NumberedRow :=
  match rowIndex? key with
  | none => .error (.unknownKey key "system")
  | some index => (complexValues key (values.getD [])).map fun zs => ⟨index, zs⟩

/-- The keys of a `system` section that are not rows. -/
def otherKeys : List String := ["free_terms", "unknowns"]

/-- The rows of a section, in the order of its keys. -/
def sectionRows (s : Section Value) : Except TaskFault (List NumberedRow) :=
  (s.entries.filter fun e => !otherKeys.contains e.1).mapM fun e => numberedRow e.1 e.2

/-- Rows in the order of their numbers. -/
def sortRows (rows : List NumberedRow) : List NumberedRow :=
  rows.mergeSort fun r s => r.index ≤ s.index

/-- The grid of rows that all have `cols` entries. -/
def gridOfRows (rows : List NumberedRow) (cols : Nat)
    (h : ∀ r ∈ rows, r.values.length = cols) : Grid Complex :=
  ⟨rows.length, cols, Vector.ofFn fun i =>
    ⟨rows[i].values.toArray, by simpa using h rows[i] (List.getElem_mem i.isLt)⟩⟩

/-- The grid of rows in the order of their numbers. -/
def gridOfSorted (rows : List NumberedRow) : Except TaskFault (Grid Complex) :=
  if rows.map (·.index) ≠ List.range rows.length then .error (.rowNumbering rows.length)
  else
    let cols := (rows.head?.map (·.values.length)).getD 0
    if cols = 0 then .error .noCoefficients
    else
      match h : rows.find? fun r => r.values.length ≠ cols with
      | some r => .error (.raggedRow r.index r.values.length cols)
      | none =>
        .ok (gridOfRows rows cols fun r hr => by
          simpa using List.find?_eq_none.1 h r hr)

/-- The coefficients of a `system` section. -/
def coefficients (s : Section Value) : Except TaskFault (Grid Complex) := do
  gridOfSorted (sortRows (← sectionRows s))

end Pivotal.Linear
