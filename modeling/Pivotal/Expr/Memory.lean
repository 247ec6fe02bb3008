import Pivotal.Expr.Eval

/-!
# Cells and sources

A `Memory` holds the values of the cells and the supply of list identities.  A source is a leaf
whose cell its owner writes; every expression that holds a leaf over that cell follows.  A constant
has a cell that nobody writes.
-/

namespace Pivotal

/-- Values of the cells made so far, and the next free identity of a list of operands. -/
structure Memory (α : Type u) where
  cells : Array α := #[]
  lists : Nat := 0

namespace Memory

variable {α : Type u}

/-- What each cell holds; zero where there is no cell. -/
def read [Zero α] (m : Memory α) (cell : Nat) : α := m.cells[cell]?.getD 0

/-- A leaf over a new cell. -/
def newLeaf (m : Memory α) (label : Option String) (x : α) : Leaf × Memory α :=
  (⟨label, m.cells.size⟩, { m with cells := m.cells.push x })

/-- Writes a value into the cell of a leaf. -/
def write (m : Memory α) (l : Leaf) (x : α) : Memory α :=
  { m with cells := m.cells.setIfInBounds l.cell x }

/-- Runs a computation that makes lists of operands. -/
def build {β : Type} (m : Memory α) (s : Supply β) : β × Memory α :=
  let (x, lists) := s.run m.lists
  (x, { m with lists })

end Memory

end Pivotal
