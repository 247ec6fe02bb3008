import Mathlib.Logic.Relation
import Pivotal.Expr.Memory
import Pivotal.Proofs.Expr.Contents

/-!
# Which cells an expression reads

`LeavesIn L e` says that all leaves of `e` belong to `L`.  No operation brings in a leaf of its own:
what it makes of expressions over `L` is an expression over `L` (`LeavesIn.join`,
`LeavesIn.cancel`).

The value of an expression depends on the cells of its leaves only, whatever is in the cache to
begin with: two evaluations that read the same there run alike, down to the entries they leave in
the cache (`evalCached_congr`).  So the owners of other cells have no influence on it
(`Memory.read_of_owners`).
-/

namespace Pivotal.Expr

variable {L : Set Leaf} {e x y : Expr}

/-! ## Leaves -/

/-- Every leaf of the expression belongs to `L`. -/
def LeavesIn (L : Set Leaf) (e : Expr) : Prop := ∀ l ∈ e.leaves, l ∈ L

theorem mem_leavesOf {es : List Expr} {l : Leaf} : l ∈ leavesOf es ↔ ∃ e ∈ es, l ∈ e.leaves := by
  induction es with
  | nil => simp [leavesOf]
  | cons e es ih => simp [leavesOf, ih]

theorem leavesIn_node {op : Op} {list : Nat} {flag : Bool} {args : List Expr} :
    LeavesIn L (.node op list flag args) ↔ ∀ e ∈ args, LeavesIn L e := by
  unfold LeavesIn
  rw [leaves]
  constructor
  · intro h e he l hl
    exact h l (mem_leavesOf.mpr ⟨e, he, hl⟩)
  · intro h l hl
    obtain ⟨e, he, hl⟩ := mem_leavesOf.mp hl
    exact h e he l hl

theorem LeavesIn.parts (h : LeavesIn L e) (op : Op) : ∀ x ∈ (e.parts op).2, LeavesIn L x := by
  rcases parts_cases op e with ⟨list, flag, args, rfl, hparts⟩ | hparts
  · rw [hparts]
    exact leavesIn_node.mp h
  · rw [hparts]
    exact List.forall_mem_singleton.mpr h

theorem LeavesIn.invert (h : LeavesIn L e) (op : Op) (k : Nat) :
    LeavesIn L ((invert op e).run k).1 := by
  rcases invert_cases op e with ⟨list, flag, args, rfl, hinvert⟩ | hinvert
  · rw [hinvert]
    exact leavesIn_node.mpr (leavesIn_node.mp h)
  · rw [hinvert]
    exact leavesIn_node.mpr (List.forall_mem_singleton.mpr h)

theorem leavesIn_mapM_invert (op : Op) {es : List Expr} (h : ∀ e ∈ es, LeavesIn L e) (k : Nat) :
    ∀ e ∈ ((es.mapM (invert op)).run k).1, LeavesIn L e := by
  induction es generalizing k with
  | nil => exact List.forall_mem_nil _
  | cons e es ih =>
    obtain ⟨he, hes⟩ := List.forall_mem_cons.mp h
    rw [List.mapM_cons]
    exact List.forall_mem_cons.mpr ⟨he.invert op k, ih hes _⟩

theorem LeavesIn.join (hx : LeavesIn L x) (hy : LeavesIn L y) (op : Op) (k : Nat) :
    LeavesIn L ((join op x y).run k).1 := by
  rcases run_join_cases op x y k with ⟨-, hrun⟩ | ⟨-, hrun⟩
  · rw [hrun]
    exact leavesIn_node.mpr (List.forall_mem_append.mpr ⟨hx.parts op, hy.parts op⟩)
  · rw [hrun]
    exact leavesIn_node.mpr
      (List.forall_mem_append.mpr ⟨hx.parts op, leavesIn_mapM_invert op (hy.parts op) k⟩)

theorem LeavesIn.cancel (hx : LeavesIn L x) (hy : LeavesIn L y) (op : Op) (k : Nat) :
    LeavesIn L ((cancel op x y).run k).1 :=
  hx.join (hy.invert op k) op _

/-! ## Two evaluations -/

section Values

variable {α : Type u} [Zero α] [One α] [Add α] [Mul α] [Neg α] [Inv α] {v w : Nat → α}

theorem evalListCached_congr {args : List Expr}
    (hargs : ∀ e ∈ args, ∀ cache, evalCached v e cache = evalCached w e cache) (op : Op) (acc : α)
    (cache : Cache α) : evalListCached v op acc args cache = evalListCached w op acc args cache := by
  induction args generalizing acc cache with
  | nil => rfl
  | cons e es ih =>
    obtain ⟨he, hes⟩ := List.forall_mem_cons.mp hargs
    rw [evalListCached, evalListCached, he]
    exact ih hes _ _

/-- Where two assignments agree on the cells of an expression, its evaluation goes the same way with
both: the same value, and the same cache afterwards. -/
theorem evalCached_congr (h : ∀ l ∈ e.leaves, v l.cell = w l.cell) (cache : Cache α) :
    evalCached v e cache = evalCached w e cache := by
  induction e using operands_induction generalizing cache with
  | leaf l =>
    rw [evalCached, evalCached, h l (by simp [leaves])]
  | node op list flag args ih =>
    rw [leaves] at h
    have hargs : ∀ e ∈ args, ∀ cache, evalCached v e cache = evalCached w e cache := fun e he =>
      ih e he fun l hl => h l (mem_leavesOf.mpr ⟨e, he, hl⟩)
    rw [evalCached, evalCached, evalListCached_congr hargs]

theorem value_congr (h : ∀ l ∈ e.leaves, v l.cell = w l.cell) : e.value v = e.value w := by
  rw [value, value, evalCached_congr h]

theorem valuesFrom_congr {es : List Expr} (h : ∀ l ∈ leavesOf es, v l.cell = w l.cell)
    (cache : Cache α) : valuesFrom v cache es = valuesFrom w cache es := by
  induction es generalizing cache with
  | nil => rfl
  | cons e es ih =>
    have he := evalCached_congr (e := e) (fun l hl => h l (by simp [leavesOf, hl])) cache
    rw [valuesFrom, valuesFrom, he]
    exact congrArg _ (ih (fun l hl => h l (by simp [leavesOf, hl])) _)

end Values

end Pivotal.Expr

/-! ## Owners of cells -/

namespace Pivotal.Memory

variable {α : Type u} [Zero α] {own held : Set Nat} {m m' : Memory α} {cell : Nat}

/-- What the owner of a source can do: set its value, if its cell is not one of `own`, or drop it.
The cell of a dropped source stays as long as a leaf reads it, which `held` says; after that nothing
is known of it. -/
inductive OwnerStep (own held : Set Nat) : Memory α → Memory α → Prop
  | set {m : Memory α} (s : Leaf) (x : α) (hs : s.cell ∉ own) : OwnerStep own held m (m.write s x)
  | drop {m m' : Memory α} (s : Leaf) (hheld : s.cell ∈ held → m'.read s.cell = m.read s.cell)
      (hother : ∀ cell, cell ≠ s.cell → m'.read cell = m.read cell) : OwnerStep own held m m'

theorem read_write_of_ne (m : Memory α) (s : Leaf) (x : α) (h : cell ≠ s.cell) :
    (m.write s x).read cell = m.read cell := by
  unfold read write
  rw [Array.getElem?_setIfInBounds_ne (Ne.symm h)]

theorem OwnerStep.read_eq (h : OwnerStep own held m m') (hown : cell ∈ own) (hheld : cell ∈ held) :
    m'.read cell = m.read cell := by
  cases h with
  | set s x hs => exact read_write_of_ne m s x fun heq => hs (heq ▸ hown)
  | drop s hkept hother =>
    by_cases hcell : cell = s.cell
    · rw [hcell] at hheld ⊢
      exact hkept hheld
    · exact hother cell hcell

/-- However the owners go on, a cell of `own` that is read keeps its value. -/
theorem read_of_owners (h : Relation.ReflTransGen (OwnerStep own held) m m') (hown : cell ∈ own)
    (hheld : cell ∈ held) : m'.read cell = m.read cell := by
  induction h with
  | refl => rfl
  | tail _ hstep ih => exact (hstep.read_eq hown hheld).trans ih

end Pivotal.Memory
