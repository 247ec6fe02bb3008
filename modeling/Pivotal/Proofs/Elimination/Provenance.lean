import Pivotal.Proofs.Elimination.Replay
import Pivotal.Proofs.Expr.Reading

/-!
# What a symbolic solution reads

The formulas of a solution, and the coefficients the elimination leaves, are put together from the
leaves of the system and from nothing else: every step of the run makes its formulas of formulas
that are there (`MadeOf`).  So a solution follows the cells of its system only.  Two assignments that
agree there give it the same values, whatever the numbers and their operations are; the owners of
other sources cannot change it, nor can anyone who drops a source (`solution_reads_system`).
-/

namespace Pivotal.Elimination

open Pivotal.Expr (LeavesIn)

variable {n : ℕ} {L : Set Leaf}

/-! ## Formulas made of given leaves -/

theorem leavesIn_rewriteEntries {f : Fin n → Expr → Supply Expr}
    (hf : ∀ j x k, LeavesIn L x → LeavesIn L ((f j x).run k).1) (ks : List (Fin n))
    {row : Vector Expr n} (hrow : ∀ c, LeavesIn L (row.get c)) (k : ℕ) (c : Fin n) :
    LeavesIn L (((rewriteEntries f row ks).run k).1.get c) := by
  induction ks generalizing row k with
  | nil => exact hrow c
  | cons j ks ih =>
    rw [run_rewriteEntries_cons]
    exact ih (forall_get_put hrow (hf j _ k (hrow j))) _

theorem leavesIn_subtractProduct {x y factor : Expr} (hx : LeavesIn L x) (hy : LeavesIn L y)
    (hfactor : LeavesIn L factor) (k : ℕ) :
    LeavesIn L ((subtractProduct x y factor).run k).1 :=
  hx.cancel (hy.join hfactor .product k) .sum _

namespace FormulaTableau

variable {t : FormulaTableau n}

/-- All leaves of the tableau belong to `L`. -/
structure MadeOf (L : Set Leaf) (t : FormulaTableau n) : Prop where
  coefficient : ∀ i j, LeavesIn L ((t.coefficients.get i).get j)
  term : ∀ i, LeavesIn L (t.terms.get i)

namespace MadeOf

theorem rewriteLine (h : t.MadeOf L) (j : Fin n) {f : Fin n → Expr → Supply Expr}
    {ks : List (Fin n)} {g : Expr → Supply Expr}
    (hf : ∀ c x k, LeavesIn L x → LeavesIn L ((f c x).run k).1)
    (hg : ∀ x k, LeavesIn L x → LeavesIn L ((g x).run k).1) :
    (t.rewriteLine j f ks g).MadeOf L where
  coefficient :=
    forall_get_put (P := fun row : Vector Expr n => ∀ c, LeavesIn L (row.get c)) h.coefficient
      (leavesIn_rewriteEntries hf ks (h.coefficient j) t.lists)
  term := forall_get_put h.term (hg _ _ (h.term j))

theorem normalize (h : t.MadeOf L) (i : Fin n) : (t.normalize i).MadeOf L := by
  rw [normalize_eq]
  exact h.rewriteLine i (fun _ x k hx => hx.cancel (h.coefficient i i) .product k)
    (fun x k hx => hx.cancel (h.coefficient i i) .product k)

theorem reduceRow (h : t.MadeOf L) (i j : Fin n) : (t.reduceRow i j).MadeOf L := by
  rw [reduceRow_eq]
  exact h.rewriteLine j
    (fun c x k hx => leavesIn_subtractProduct hx (h.coefficient i c) (h.coefficient j i) k)
    (fun x k hx => leavesIn_subtractProduct hx (h.term i) (h.coefficient j i) k)

theorem discharge (h : t.MadeOf L) (i j : Fin n) : (t.discharge i j).MadeOf L := by
  rw [discharge_eq]
  exact h.rewriteLine j (fun _ x k hx => hx)
    (fun x k hx => leavesIn_subtractProduct hx (h.term i) (h.coefficient j i) k)

theorem pivoted (h : t.MadeOf L) (i j : Fin n) : (t.pivoted i j).MadeOf L := by
  unfold FormulaTableau.pivoted
  by_cases hj : j = i
  · rw [if_pos hj]
    exact h
  · rw [if_neg hj]
    refine ⟨fun r c => ?_, fun r => ?_⟩
    · simp only [FormulaTableau.exchange, FormulaTableau.report, get_swap]
      exact h.coefficient _ c
    · simp only [FormulaTableau.exchange, FormulaTableau.report, get_swap]
      exact h.term _

theorem clear (h : t.MadeOf L) (i : Fin n) : ((t.normalize i).reduceBelow i).MadeOf L :=
  List.foldlRecOn _ _ (h.normalize i) fun _ ht j _ => ht.reduceRow i j

theorem substituteBack (h : t.MadeOf L) : t.substituteBack.MadeOf L :=
  List.foldlRecOn _ _ h fun _ ht i _ => List.foldlRecOn _ _ ht fun _ ht' j _ => ht'.discharge i j

section Scalars

variable {α : Type*} [Zero α] [One α] [Add α] [Mul α] [Neg α] [Inv α] [Pivoting α]

theorem step (h : t.MadeOf L) {v : ℕ → α} {i : Fin n} {t' : FormulaTableau n}
    (hstep : t.step v i = .ok t') : t'.MadeOf L := by
  obtain ⟨j, -, -, rfl⟩ := step_ok hstep
  exact (h.pivoted i j).clear i

theorem eliminate (h : t.MadeOf L) {v : ℕ → α} {t' : FormulaTableau n}
    (hrun : t.eliminate v = .ok t') : t'.MadeOf L :=
  (foldlM_finRange (fun _ => MadeOf L) (fun _ => True) (fun _ _ _ ht hstep => ht.step hstep)
    (fun _ _ _ _ _ => trivial) t h).1 t' hrun

end Scalars

end MadeOf

end FormulaTableau

/-! ## Solutions -/

/-- The leaves of a system, in its coefficients and its free terms. -/
def leavesOfSystem (a : Grid Expr) (b : Array Expr) : Set Leaf :=
  { l | (∃ i j, l ∈ ((a.entries.get i).get j).leaves) ∨ ∃ e ∈ b, l ∈ e.leaves }

/-- The cells that these leaves read. -/
def cellsOfSystem (a : Grid Expr) (b : Array Expr) : Set ℕ :=
  Set.image Leaf.cell (leavesOfSystem a b)

theorem madeOf_leavesOfSystem (a : Table Expr n n) (b : Vector Expr n) (lists : ℕ) :
    (FormulaTableau.mk a b lists []).MadeOf (leavesOfSystem ⟨n, n, a⟩ b.toArray) where
  coefficient i j _ hl := .inl ⟨i, j, hl⟩
  term i _ hl := .inr ⟨b.get i, Vector.mem_toArray_iff _ _ |>.mpr (b.getElem_mem i.isLt), hl⟩

theorem FormulaTableau.MadeOf.leavesOfSystem_subset {t : FormulaTableau n} (h : t.MadeOf L) :
    leavesOfSystem ⟨n, n, t.coefficients⟩ t.terms.toArray ⊆ L := by
  rintro l (⟨i, j, hl⟩ | ⟨e, he, hl⟩)
  · exact h.coefficient i j l hl
  · obtain ⟨i, hi, rfl⟩ := Vector.mem_iff_getElem.mp (Vector.mem_toArray_iff e _ |>.mp he)
    exact h.term ⟨i, hi⟩ l hl

section Scalars

variable {α : Type*} [Zero α] [One α] [Add α] [Mul α] [Neg α] [Inv α]

theorem leavesOfSystem_solveSymbolic [Pivoting α] {v : ℕ → α} {a : Grid Expr} {b : Array Expr}
    {lists : ℕ} {out : Formulas} (hout : (solveSymbolic v a b lists).outcome = .ok out) :
    leavesOfSystem out.coefficients out.formulas ⊆ leavesOfSystem a b := by
  obtain ⟨hrows, hcols, hterms⟩ := hasSize_of_solveSymbolic hout
  obtain ⟨n, m, a⟩ := a
  obtain rfl : m = n := hcols.trans hrows.symm
  obtain ⟨b, rfl⟩ : ∃ b' : Vector Expr m, b = b'.toArray := ⟨⟨b, hterms.trans hrows.symm⟩, rfl⟩
  rw [solveSymbolic_square] at hout
  cases hrun : (FormulaTableau.mk a b lists []).eliminate v with
  | error e =>
    rw [hrun] at hout
    cases hout
  | ok t =>
    rw [hrun] at hout
    cases hout
    exact ((madeOf_leavesOfSystem a b lists).eliminate hrun).substituteBack.leavesOfSystem_subset

/-- Two assignments give the formulas the same values: to each by itself, and to all of them one
after another, whatever is in the cache to begin with. -/
def ReadAlike (w w' : ℕ → α) (formulas : Array Expr) : Prop :=
  (∀ e ∈ formulas, e.value w = e.value w') ∧
    ∀ cache, Expr.valuesFrom w cache formulas.toList = Expr.valuesFrom w' cache formulas.toList

theorem readAlike_of_agree {w w' : ℕ → α} {formulas : Array Expr}
    (h : ∀ e ∈ formulas, ∀ l ∈ e.leaves, w l.cell = w' l.cell) : ReadAlike w w' formulas := by
  refine ⟨fun e he => Expr.value_congr (h e he), fun cache => Expr.valuesFrom_congr ?_ cache⟩
  intro l hl
  obtain ⟨e, he, hl⟩ := Expr.mem_leavesOf.mp hl
  exact h e (Array.mem_toList_iff.mp he) l hl

/-- A solution depends on the leaves of its own system only.  The formulas and the coefficients that
the run leaves have no other leaves.  So, with any numbers in the cells and any operations on them,
assignments that agree on the cells of the system agree on every formula; and whatever the owners of
sources do later, setting those outside the system and dropping any of them, the formulas keep their
values. -/
theorem solution_reads_system [Pivoting α] (v : ℕ → α) (a : Grid Expr) (b : Array Expr) (lists : ℕ)
    {out : Formulas} (hout : (solveSymbolic v a b lists).outcome = .ok out)
    (β : Type*) [Zero β] [One β] [Add β] [Mul β] [Neg β] [Inv β] :
    leavesOfSystem out.coefficients out.formulas ⊆ leavesOfSystem a b ∧
      (∀ w w' : ℕ → β, (∀ cell ∈ cellsOfSystem a b, w cell = w' cell) →
        ReadAlike w w' out.formulas) ∧
      ∀ m m' : Memory β, Relation.ReflTransGen (Memory.OwnerStep (cellsOfSystem a b)
          (cellsOfSystem out.coefficients out.formulas)) m m' →
        ReadAlike m.read m'.read out.formulas := by
  have hleaves := leavesOfSystem_solveSymbolic hout
  have hread : ∀ e ∈ out.formulas, ∀ l ∈ e.leaves,
      l ∈ leavesOfSystem out.coefficients out.formulas := fun e he l hl => .inr ⟨e, he, hl⟩
  refine ⟨hleaves, fun w w' hw => ?_, fun m m' howners => ?_⟩
  · refine readAlike_of_agree fun e he l hl => hw _ ?_
    exact Set.mem_image_of_mem _ (hleaves (hread e he l hl))
  · refine readAlike_of_agree fun e he l hl => (Memory.read_of_owners howners ?_ ?_).symm
    · exact Set.mem_image_of_mem _ (hleaves (hread e he l hl))
    · exact Set.mem_image_of_mem _ (hread e he l hl)

end Scalars

/-- Four sources and a constant; the source of the first pivot stands at zero. -/
def bridgeSystem : Grid Expr :=
  ⟨2, 2, #v[#v[.leaf ⟨some "g", 0⟩, .leaf ⟨some "r", 1⟩],
    #v[.leaf ⟨some "r", 1⟩, .leaf ⟨some "h", 2⟩]]⟩

def bridgeTerms : Array Expr := #[.leaf ⟨some "u", 3⟩, .leaf ⟨none, 4⟩]

/-- The last cell belongs to a source that is not part of the system. -/
def bridgeMemory : Memory ℚ := ⟨#[0, 2, 3, 5, 1, 7], 0⟩

theorem lt_of_mem_cells_bridge {cell : ℕ} (h : cell ∈ cellsOfSystem bridgeSystem bridgeTerms) :
    cell < 5 := by
  obtain ⟨l, ⟨i, j, hl⟩ | ⟨e, he, hl⟩, rfl⟩ := h
  · have hleaf : ∀ i j : Fin 2, ∀ l ∈ ((bridgeSystem.entries.get i).get j).leaves, l.cell < 5 := by
      decide
    exact hleaf i j l hl
  · have hleaf : ∀ e ∈ bridgeTerms.toList, ∀ l ∈ e.leaves, l.cell < 5 := by decide
    exact hleaf e (Array.mem_toList_iff.mpr he) l hl

/-- The rows are exchanged; then the source outside the system is set to 9 and dropped, and its cell
is gone. -/
theorem solution_reads_system_bridge :
    ∃ out, (solveSymbolic bridgeMemory.read bridgeSystem bridgeTerms 0).outcome = .ok out ∧
      leavesOfSystem out.coefficients out.formulas ⊆ leavesOfSystem bridgeSystem bridgeTerms ∧
      ReadAlike (fun cell => (cell : ℚ)) (fun cell => if cell < 5 then (cell : ℚ) else 8)
        out.formulas ∧
      ReadAlike bridgeMemory.read (Memory.mk #[0, 2, 3, 5, 1] 0 : Memory ℚ).read out.formulas := by
  obtain ⟨out, hout⟩ := exists_of_isOk
    (show (solveSymbolic bridgeMemory.read bridgeSystem bridgeTerms 0).outcome.isOk = true by cbv)
  obtain ⟨hleaves, hagree, howners⟩ :=
    solution_reads_system bridgeMemory.read bridgeSystem bridgeTerms 0 hout ℚ
  refine ⟨out, hout, hleaves, hagree _ _ fun cell hcell => ?_, howners _ _ (.tail
    (.single (.set ⟨some "w", 5⟩ 9 fun h => ?_)) (.drop ⟨some "w", 5⟩ (fun h => ?_) ?_))⟩
  · rw [if_pos (lt_of_mem_cells_bridge hcell)]
  · exact absurd (lt_of_mem_cells_bridge h) (by decide)
  · exact absurd (lt_of_mem_cells_bridge (Set.image_mono hleaves h)) (by decide)
  · intro cell hcell
    rw [Memory.read_write_of_ne _ _ _ hcell]
    by_cases hlt : cell < 5
    · interval_cases cell <;> rfl
    · have hgt : 6 ≤ cell := by
        have hne : cell ≠ 5 := hcell
        omega
      simp [Memory.read, bridgeMemory, hgt, not_lt.mp hlt]

end Pivotal.Elimination
