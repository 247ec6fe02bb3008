import Pivotal.Elimination.Constant
import Pivotal.Proofs.Elimination.Replay
import Pivotal.Proofs.Elimination.Solution

/-!
# The two engines agree

The engines choose different pivot rows and leave different tables, so they do not agree step by
step.  But a square system has one right outcome (`Answers.unique`), and each engine gives it:
`solveSymbolic_answers` and `solve_answers`.  A system of constants reads back as the numbers it was
made of (`read_coefficient`, `read_term`), and a system that is not square is refused by both before
anything is computed; so `solveConstants` and `solve` agree on every input (`engines_agree`).
-/

namespace Pivotal.Elimination

open Matrix

/-! ## Cells of constants -/

section Cells

variable {α : Type*}

theorem cells_eq (a : Grid α) (b : Array α) :
    (constantMemory a b).cells = a.entries.flatten.toArray ++ b := by
  rw [← Vector.flatMap_id, ← Vector.flatMap_toArray]
  rfl

theorem read_coefficient [Zero α] (a : Grid α) (b : Array α) (i : Fin a.rows) (j : Fin a.cols) :
    (constantMemory a b).read (i * a.cols + j) = (a.entries.get i).get j := by
  have hcell : i.val * a.cols + j.val < a.entries.flatten.toArray.size := by
    rw [Vector.size_toArray]
    exact Grid.place_lt i j
  unfold Memory.read
  rw [cells_eq, Array.getElem?_append_left hcell, Vector.getElem?_toArray, Grid.getElem?_flatten,
    Option.getD_some]

theorem read_term [Zero α] (a : Grid α) (b : Array α) (k : Fin b.size) :
    (constantMemory a b).read (a.rows * a.cols + k) = b[k] := by
  unfold Memory.read
  rw [cells_eq, Array.getElem?_append_right (by rw [Vector.size_toArray]; exact Nat.le_add_right _ _),
    Vector.size_toArray, Nat.add_sub_cancel_left, Array.getElem?_eq_getElem k.isLt, Option.getD_some]
  rfl

/-- The leaves of a square system of constants. -/
def leafTable (n : ℕ) : Table Expr n n :=
  Vector.ofFn fun i => Vector.ofFn fun j => .leaf ⟨none, i.val * n + j.val⟩

def leafTerms (n : ℕ) : Vector Expr n := Vector.ofFn fun k => .leaf ⟨none, n * n + k.val⟩

theorem get_leafTable {n : ℕ} (i j : Fin n) :
    ((leafTable n).get i).get j = .leaf ⟨none, i.val * n + j.val⟩ := by
  simp [leafTable, Vector.get_eq_getElem]

theorem get_leafTerms {n : ℕ} (i : Fin n) : (leafTerms n).get i = .leaf ⟨none, n * n + i.val⟩ := by
  simp [leafTerms, Vector.get_eq_getElem]

theorem occurring_leaves {n : ℕ} :
    ∀ e ∈ occurring (leafTable n) (leafTerms n), ∃ l, e = .leaf l := by
  rintro e (⟨i, j, rfl⟩ | ⟨i, rfl⟩)
  · exact ⟨_, get_leafTable i j⟩
  · exact ⟨_, get_leafTerms i⟩

theorem constantTerms_square {n : ℕ} (a : Table α n n) (b : Vector α n) :
    constantTerms ⟨n, n, a⟩ b.toArray = (leafTerms n).toArray := by
  unfold constantTerms leafTerms
  ext k hk hk'
  · simp
  · simp

end Cells

variable {F : Type*} [Field F] [Pivoting F] {L : Type*} [LinearOrder L] {n : ℕ}

/-! ## Each engine answers -/

theorem solveSymbolic_answers (hz : ∀ x : F, isZero x = true ↔ x = 0) (v : ℕ → F)
    (a : Table Expr n n) (b : Vector Expr n) (lists : ℕ)
    (hpool : Expr.Pool lists (occurring a b)) :
    ∃ y, Answers (matrixAt v a) (termsAt v b) y ∧
      ((solveSymbolic v ⟨n, n, a⟩ b.toArray lists).outcome.map fun f =>
        Expr.values v f.formulas.toList) = (y.mapError Fault.singular).map List.ofFn := by
  have hshared := shared_of_pool hpool
  obtain ⟨hok, herror⟩ := FormulaTableau.symbolic_answers hz v hshared
  rw [solveSymbolic_square, matrixAt_eq hshared, termsAt_eq hshared]
  cases hrun : (FormulaTableau.mk a b lists []).eliminate v with
  | error e => exact ⟨.error e.row, herror e hrun, rfl⟩
  | ok t =>
    obtain ⟨hshared', hanswers⟩ := hok t hrun
    refine ⟨.ok (t.substituteBack.vector v), hanswers v fun e he => ?_, ?_⟩
    · exact (FormulaTableau.pivots_spec hz v hshared (List.finRange n) e he).1
    · exact congrArg Except.ok (hshared'.values_terms v)

theorem solve_answers {mag : F → L} (hmag : IsMagnitude mag) (a : Table F n n) (b : Vector F n) :
    ∃ y, Answers (matrixOf a) b.get y ∧
      ((solve ⟨n, n, a⟩ b.toArray false).outcome.map fun x => x.1.toList) =
        (y.mapError Fault.singular).map List.ofFn := by
  obtain ⟨hok, herror⟩ := moving_exact hmag a b false
  rw [solve_outcome]
  cases hrun : (Arranged.solve a b false).1 with
  | error row => exact ⟨.error row, herror row hrun, rfl⟩
  | ok x =>
    obtain ⟨hdet, hx, -⟩ := hok x hrun
    exact ⟨.ok x.get, ⟨hdet, hx⟩, congrArg Except.ok (toList_eq_ofFn x)⟩

/-! ## Agreement -/

theorem engines_agree_square {mag : F → L} (hmag : IsMagnitude mag) (a : Table F n n)
    (b : Vector F n) :
    ((solveConstants ⟨n, n, a⟩ b.toArray).outcome.map fun f =>
        Expr.values (constantMemory ⟨n, n, a⟩ b.toArray).read f.formulas.toList) =
      (solve ⟨n, n, a⟩ b.toArray false).outcome.map fun x => x.1.toList := by
  have hpool : Expr.Pool 0 (occurring (leafTable n) (leafTerms n)) :=
    Expr.Pool.leaves 0 occurring_leaves
  obtain ⟨x, hx, hsymbolic⟩ := solveSymbolic_answers hmag.isZero_iff
    (constantMemory ⟨n, n, a⟩ b.toArray).read _ _ 0 hpool
  obtain ⟨y, hy, hnumeric⟩ := solve_answers hmag a b
  have hmatrix : matrixAt (constantMemory ⟨n, n, a⟩ b.toArray).read (leafTable n) = matrixOf a := by
    ext i j
    show Expr.value _ (((leafTable n).get i).get j) = _
    rw [get_leafTable]
    exact read_coefficient ⟨n, n, a⟩ b.toArray i j
  have hterms : termsAt (constantMemory ⟨n, n, a⟩ b.toArray).read (leafTerms n) = b.get := by
    funext i
    show Expr.value _ ((leafTerms n).get i) = _
    rw [get_leafTerms]
    exact read_term ⟨n, n, a⟩ b.toArray (Fin.cast b.size_toArray.symm i)
  rw [hmatrix, hterms] at hx
  rw [hx.unique hy] at hsymbolic
  rw [solveConstants, constantTerms_square]
  exact hsymbolic.trans hnumeric.symm

/-- Solving a numeric system as a system of constants and evaluating gives what solving it directly
gives: the same vector, or the same refusal, down to the dimensions and the row it names. -/
theorem engines_agree {mag : F → L} (hmag : IsMagnitude mag) (a : Grid F) (b : Array F) :
    ((solveConstants a b).outcome.map fun f =>
        Expr.values (constantMemory a b).read f.formulas.toList) =
      (solve a b false).outcome.map fun x => x.1.toList := by
  have hsize : (constantTerms a b).size = b.size := by simp [constantTerms]
  by_cases hsquare : a.cols = a.rows
  · by_cases hb : b.size = a.rows
    · obtain ⟨n, cols, entries⟩ := a
      obtain rfl : cols = n := hsquare
      exact engines_agree_square hmag entries ⟨b, hb⟩
    · have hnumeric : Square.ofGrid a b = .error (.sizeMismatch a.rows b.size) := by
        rw [Square.ofGrid, dif_pos hsquare, dif_neg hb]
      have hsymbolic : Square.ofGrid (constantGrid a) (constantTerms a b) =
          .error (.sizeMismatch a.rows b.size) := by
        rw [Square.ofGrid, dif_pos (by exact hsquare), dif_neg (by rw [hsize]; exact hb), hsize]
        rfl
      rw [solveConstants, solveSymbolic, solve, hnumeric, hsymbolic]
      rfl
  · have hnumeric : Square.ofGrid a b = .error (.notSquare a.rows a.cols) := by
      rw [Square.ofGrid, dif_neg hsquare]
    have hsymbolic : Square.ofGrid (constantGrid a) (constantTerms a b) =
        .error (.notSquare a.rows a.cols) := by
      rw [Square.ofGrid, dif_neg (by exact hsquare)]
      rfl
    rw [solveConstants, solveSymbolic, solve, hnumeric, hsymbolic]
    rfl

/-- The second column is twice the first: one engine pivots on the first row and the other on the
second, and both stop at row 1. -/
theorem engines_agree_singular :
    ((solve ⟨3, 3, #v[#v[1, 2, 3], #v[4, 8, 1], #v[2, 4, 5]]⟩ #[(1 : ℚ), 1, 1] false).outcome.map
        fun x => x.1.toList) = .error (.singular 1) ∧
      ((solveConstants ⟨3, 3, #v[#v[1, 2, 3], #v[4, 8, 1], #v[2, 4, 5]]⟩ #[(1 : ℚ), 1, 1]).outcome.map
        fun f => Expr.values (constantMemory ⟨3, 3, #v[#v[1, 2, 3], #v[4, 8, 1], #v[2, 4, 5]]⟩
          #[(1 : ℚ), 1, 1]).read f.formulas.toList) = .error (.singular 1) := by
  have hnumeric : ((solve ⟨3, 3, #v[#v[1, 2, 3], #v[4, 8, 1], #v[2, 4, 5]]⟩ #[(1 : ℚ), 1, 1]
      false).outcome.map fun x => x.1.toList) = .error (.singular 1) := by cbv
  exact ⟨hnumeric, (engines_agree isMagnitude_abs _ _).trans hnumeric⟩

end Pivotal.Elimination
