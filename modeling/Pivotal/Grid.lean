/-!
# Rectangular tables

`Table α m n` stores `m` rows of `n` entries.  A `Grid` carries its dimensions with it; it is what
a caller hands over before the dimensions have been checked.
-/

namespace Pivotal

/-- A stored table of `m` rows and `n` columns. -/
abbrev Table (α : Type u) (m n : Nat) := Vector (Vector α n) m

/-- Replaces the entry in one place. -/
def put (v : Vector α n) (i : Fin n) (x : α) : Vector α n := v.set i x i.isLt

theorem forall_mem_toList {v : Vector α n} {P : α → Prop} (h : ∀ i : Fin n, P (v.get i)) :
    ∀ x ∈ v.toList, P x := by
  intro x hx
  obtain ⟨i, hi, rfl⟩ := Vector.getElem_of_mem (Vector.mem_toList_iff.mp hx)
  exact h ⟨i, hi⟩

/-- A table together with its dimensions. -/
structure Grid (α : Type u) where
  rows : Nat
  cols : Nat
  entries : Table α rows cols

namespace Grid

/-- The grid of the entries `f row col`. -/
def tabulate (rows cols : Nat) (f : Fin rows → Fin cols → α) : Grid α :=
  ⟨rows, cols, Vector.ofFn fun i => Vector.ofFn fun j => f i j⟩

/-- The grid whose entries are listed row by row. -/
def ofFlat? (rows cols : Nat) (flat : Array α) : Option (Grid α) :=
  if h : flat.size = rows * cols then
    some (tabulate rows cols fun i j =>
      have : i.val * cols + j.val < flat.size := by
        have hi := Nat.mul_le_mul_right cols i.isLt
        have hj := j.isLt
        simp only [Nat.succ_mul] at hi
        omega
      flat[i.val * cols + j.val])
  else none

def map (f : α → β) (g : Grid α) : Grid β := ⟨g.rows, g.cols, g.entries.map (·.map f)⟩

/-- Rows and columns exchanged. -/
def transpose (g : Grid α) : Grid α :=
  tabulate g.cols g.rows fun j i => (g.entries.get i).get j

/-- The place of an entry when the rows are written one after the other. -/
theorem place_lt {rows cols : Nat} (i : Fin rows) (j : Fin cols) :
    i.val * cols + j.val < rows * cols := by
  have hi := Nat.mul_le_mul_right cols i.isLt
  have hj := j.isLt
  simp only [Nat.succ_mul] at hi
  omega

theorem getElem?_flatten {rows cols : Nat} (t : Table α rows cols) (i : Fin rows) (j : Fin cols) :
    t.flatten[i.val * cols + j.val]? = some ((t.get i).get j) := by
  have hrow : (i.val * cols + j.val) / cols = i := by
    rw [Nat.mul_comm, Nat.mul_add_div (Nat.zero_lt_of_lt j.isLt), Nat.div_eq_of_lt j.isLt,
      Nat.add_zero]
  have hcol : (i.val * cols + j.val) % cols = j := by
    rw [Nat.mul_add_mod_self_right, Nat.mod_eq_of_lt j.isLt]
  rw [Vector.getElem?_eq_getElem (place_lt i j), Vector.getElem_flatten]
  simp only [hrow, hcol]
  rfl

theorem get_transpose (g : Grid α) (j : Fin g.cols) (i : Fin g.rows) :
    (g.transpose.entries.get j).get i = (g.entries.get i).get j := by
  show (Vector.ofFn fun j => Vector.ofFn fun i => (g.entries.get i).get j)[j.val][i.val] = _
  rw [Vector.getElem_ofFn, Vector.getElem_ofFn]

/-- The rows as lists. -/
def toLists (g : Grid α) : List (List α) := g.entries.toList.map Vector.toList

/-- A grid without entries. -/
def isEmpty (g : Grid α) : Bool := g.rows == 0 || g.cols == 0

end Grid

end Pivotal
