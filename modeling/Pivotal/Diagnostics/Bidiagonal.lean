import Pivotal.Diagnostics.Reflection
import Pivotal.Grid

/-!
# Bidiagonal matrices

Reflections from both sides bring every matrix to a form with entries on the diagonal and beside it
only, and keep its singular values.  A matrix with more columns than rows is taken row by row, any
other column by column; each line gives one entry of the diagonal, and what then stands across the
remaining lines gives the entry beside it.
-/

namespace Pivotal.Diagnostics

/-- Magnitudes on the diagonal and beside it: `beside i` stands between `diagonal i` and
`diagonal (i + 1)`. -/
structure Bidiagonal where
  diagonal : Array Float
  beside : Array Float

namespace Bidiagonal

/-- The entry `i` of the diagonal. -/
def d (b : Bidiagonal) (i : Nat) : Float := b.diagonal.getD i 0

/-- The entry `i` beside the diagonal. -/
def e (b : Bidiagonal) (i : Nat) : Float := b.beside.getD i 0

def setD (b : Bidiagonal) (i : Nat) (x : Float) : Bidiagonal :=
  { b with diagonal := b.diagonal.setIfInBounds i x }

def setE (b : Bidiagonal) (i : Nat) (x : Float) : Bidiagonal :=
  { b with beside := b.beside.setIfInBounds i x }

/-- The lines that follow `line` once it is cleared, and what its first entry becomes. -/
def clearLine (axisFirst : Bool) (line : List Complex) (rest : List (List Complex)) :
    Float × List (List Complex) :=
  match Reflection.clearing line with
  | (head, some r) => (head.magnitude, rest.map (r.along axisFirst))
  | (head, none) => (head.magnitude, rest)

/-- The lines without their first entries once what stands across there is cleared, and what it
becomes. -/
def clearHeads (axisFirst : Bool) (lines : List (List Complex)) :
    Float × List (List Complex) :=
  match Reflection.clearing (lines.map (·.headD 0)) with
  | (head, some r) => (head.magnitude, r.across axisFirst (lines.map List.tail))
  | (head, none) => (head.magnitude, lines.map List.tail)

theorem length_clearLine_le (axisFirst : Bool) (line : List Complex)
    (rest : List (List Complex)) : (clearLine axisFirst line rest).2.length ≤ rest.length := by
  unfold clearLine
  split <;> simp

theorem length_clearHeads_le (axisFirst : Bool) (lines : List (List Complex)) :
    (clearHeads axisFirst lines).2.length ≤ lines.length := by
  unfold clearHeads
  split
  · simpa using Reflection.length_across_le _ axisFirst (lines.map List.tail)
  · simp

/-- The diagonal and the entries beside it of the matrix with the given lines. -/
def reduceLines (axisFirst : Bool) : List (List Complex) → List Float × List Float
  | [] => ([], [])
  | line :: rest =>
    let lines := clearLine axisFirst line rest
    let cross := clearHeads (!axisFirst) lines.2
    let (ds, es) := reduceLines axisFirst cross.2
    (lines.1 :: ds, cross.1 :: es)
termination_by lines => lines.length
decreasing_by
  have h := length_clearHeads_le (!axisFirst) (clearLine axisFirst line rest).2
  have h' := length_clearLine_le axisFirst line rest
  simp only [List.length_cons]
  omega

/-- The bidiagonal form of a matrix.  Nothing stands beside the last entry of the diagonal. -/
def ofGrid (a : Grid Complex) : Bidiagonal :=
  let (ds, es) :=
    if a.cols ≤ a.rows then
      reduceLines false
        ((List.finRange a.cols).map fun j => a.entries.toList.map (·.get j))
    else reduceLines true a.toLists
  ⟨ds.toArray, es.dropLast.toArray⟩

end Bidiagonal

end Pivotal.Diagnostics
