import Pivotal.Grid

/-!
# Square systems and why elimination refuses one

A system can be eliminated when its coefficients are square and there is one free term for each
equation.  Both engines start from a `Square`, which `Square.ofGrid` builds after this check, so
the check precedes every computation.
-/

namespace Pivotal

/-- Why a system has no answer. -/
inductive Fault where
  /-- The coefficients are not square. -/
  | notSquare (rows cols : Nat)
  /-- The number of free terms differs from the number of equations. -/
  | sizeMismatch (equations terms : Nat)
  /-- No usable pivot at the given step: the system has no unique solution. -/
  | singular (row : Nat)
  deriving DecidableEq, Repr

namespace Fault

/-- Refused before anything is computed. -/
def isInvalidArgument : Fault → Bool
  | .notSquare _ _ => true
  | .sizeMismatch _ _ => true
  | .singular _ => false

def message : Fault → String
  | .notSquare r c => s!"Matrix of coefficients is not square: {r} rows, {c} columns"
  | .sizeMismatch e t => s!"Matrix of coefficients has {e} rows but there are {t} free terms"
  | .singular r => s!"System has no unique solution: no non-zero pivot for row {r}"

end Fault

/-- The fault of a system with these dimensions, if it has one. -/
def dimensionFault? (rows cols terms : Nat) : Option Fault :=
  if rows ≠ cols then some (.notSquare rows cols)
  else if rows ≠ terms then some (.sizeMismatch rows terms)
  else none

/-- A system of `size` equations in `size` unknowns. -/
structure Square (α : Type u) where
  size : Nat
  coefficients : Table α size size
  terms : Vector α size

/-- The square system of a grid and its free terms. -/
def Square.ofGrid (a : Grid α) (b : Array α) : Except Fault (Square α) :=
  if hs : a.cols = a.rows then
    if hb : b.size = a.rows then .ok ⟨a.rows, a.entries.map (·.cast hs), ⟨b, hb⟩⟩
    else .error (.sizeMismatch a.rows b.size)
  else .error (.notSquare a.rows a.cols)

end Pivotal
