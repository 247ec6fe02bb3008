import Pivotal.Proofs.Elimination.Lines
import Pivotal.Proofs.Elimination.Magnitude
import Pivotal.Proofs.Elimination.Outcomes
import Pivotal.Proofs.Elimination.Refinement
import Pivotal.Proofs.Elimination.Retirement

/-!
# What a run leaves in the caller's buffers

The elimination never writes behind the active block: the rows and columns there are the caller's
(`Untouched`).  Together with `Shows` this gives the answer and the buffer of a run in terms of the
plain elimination that moves rows and columns, for scalars of any kind
(`solve_refines_moving`).
-/

namespace Pivotal.Elimination

variable {α : Type u} {n : Nat}

namespace Arranged

/-- Behind the active block of `s₀` nothing has moved, and every entry is still the caller's. -/
structure Untouched (a : Table α n n) (s₀ s : Arranged α n) : Prop where
  active : s.active = s₀.active
  unknowns : s.unknowns = s₀.unknowns
  equations : ∀ k : Fin n, s₀.active ≤ k.val → s.equations k = s₀.equations k
  entry : ∀ r c : Fin n, s₀.active ≤ r.val ∨ s₀.active ≤ c.val →
    s.entry r c = (a.get (s.equations r)).get (s.unknowns c)

namespace Untouched

variable {a : Table α n n} {b : Vector α n} {s₀ s s' : Arranged α n}

theorem refl (h : Arranges a b s₀) : Untouched a s₀ s₀ :=
  ⟨rfl, rfl, fun _ _ => rfl, fun r c _ => h.entry r c⟩

theorem swapRows (h : Untouched a s₀ s) {i j : Fin n} (hi : i.val < s₀.active)
    (hj : j.val < s₀.active) : Untouched a s₀ (s.swapRows i j) := by
  have hfix : ∀ k : Fin n, s₀.active ≤ k.val → Equiv.swap i j k = k := by
    intro k hk
    exact Equiv.swap_apply_of_ne_of_ne (Fin.ne_of_val_ne (by omega)) (Fin.ne_of_val_ne (by omega))
  refine ⟨h.active, h.unknowns, fun k hk => ?_, fun r c hrc => ?_⟩
  · show s.equations (Equiv.swap i j k) = _
    rw [hfix k hk]
    exact h.equations k hk
  · rw [entry_swapRows]
    refine h.entry (Equiv.swap i j r) c ?_
    rcases hrc with hr | hc
    · exact .inl (by rw [hfix r hr]; exact hr)
    · exact .inr hc

/-- A loop that moves nothing and writes inside the block only. -/
theorem still (h : Untouched a s₀ s) (hstill : Still s s')
    (hentry : ∀ r c : Fin n, s₀.active ≤ r.val ∨ s₀.active ≤ c.val →
      (s'.line r).coefficient c = (s.line r).coefficient c) : Untouched a s₀ s' := by
  refine ⟨hstill.active.trans h.active, hstill.unknowns.trans h.unknowns, fun k hk => ?_,
    fun r c hrc => ?_⟩
  · rw [hstill.equations]
    exact h.equations k hk
  · rw [hstill.equations, hstill.unknowns]
    exact (hentry r c hrc).trans (h.entry r c hrc)

theorem clear [Sub α] [Mul α] [Div α] [Pivoting α] (h : Untouched a s₀ s) {i : Fin n}
    (hi : i.val < s₀.active) : Untouched a s₀ ((s.normalize i).reduceBelow i) := by
  obtain ⟨hstill, hline⟩ := s.clear_spec i
  refine h.still hstill fun r c hrc => ?_
  rw [hline r, h.active]
  by_cases hr : s₀.active ≤ r.val
  · rw [if_neg (Fin.ne_of_val_ne (by omega)), if_neg (by omega)]
  · have hc : ¬ c.val < s₀.active := Nat.not_lt.mpr (hrc.resolve_left hr)
    by_cases hri : r = i
    · rw [if_pos hri, hri]
      exact if_neg fun e => hc e.2
    · rw [if_neg hri]
      split
      · split
        · rfl
        · exact if_neg fun e => hc e.2
      · rfl

theorem dischargeAbove [Sub α] [Mul α] (h : Untouched a s₀ s) (i : Fin n) :
    Untouched a s₀ (s.dischargeAbove i) := by
  obtain ⟨hstill, hline⟩ := s.dischargeAbove_spec i
  refine h.still hstill fun r c _ => ?_
  rw [hline r]
  split
  · rfl
  · rfl

theorem substituteBack [Sub α] [Mul α] (h : Untouched a s₀ s) :
    Untouched a s₀ s.substituteBack :=
  List.foldlRecOn _ _ h fun _ h' i _ => h'.dischargeAbove i

theorem eliminate [Sub α] [Mul α] [Div α] [Pivoting α] (h : Untouched a s₀ s₀) :
    (∀ s, s₀.eliminate = .ok s → Untouched a s₀ s) ∧
      ∀ e, s₀.eliminate = .error e → Untouched a s₀ e.2 := by
  rw [eliminate_eq]
  refine foldlM_finRange (fun _ => Untouched a s₀)
    (fun e : Nat × Arranged α n => Untouched a s₀ e.2) ?_ ?_ s₀ h
  · intro i s s' hs hstep
    obtain ⟨-, rfl⟩ := step_ok hstep
    have hi : (Fin.castLE s₀.active_le i).val < s₀.active := i.isLt
    have hbest := (s.bestRow_mem _ (by rw [hs.active]; exact hi)).2
    rw [hs.active] at hbest
    exact (hs.swapRows hi hbest).clear hi
  · intro i s e hs hstep
    obtain ⟨-, rfl⟩ := step_error hstep
    exact hs

/-- Row and column of an equation that started behind the active block, in the restored table. -/
theorem restored_eq (h : Untouched a s₀ s) (htogether : s₀.unknowns = s₀.equations) {k : Fin n}
    (hk : s₀.active ≤ (s₀.equations.symm k).val) (j : Fin n) :
    (s.restored.get k).get j = (a.get k).get j ∧ (s.restored.get j).get k = (a.get j).get k := by
  have hplace : s.equations.symm k = s₀.equations.symm k := by
    rw [Equiv.symm_apply_eq, h.equations _ hk, Equiv.apply_symm_apply]
  have hvar : s.unknowns.symm k = s₀.equations.symm k := by rw [h.unknowns, htogether]
  rw [get_restored, get_restored]
  constructor
  · rw [h.entry _ _ (.inl (hplace ▸ hk)), Equiv.apply_symm_apply, Equiv.apply_symm_apply]
  · rw [h.entry _ _ (.inr (hvar ▸ hk)), Equiv.apply_symm_apply, Equiv.apply_symm_apply]

end Untouched

/-- A run of the plain elimination leaves rows and columns of retired equations alone. -/
theorem solve_untouched [Zero α] [Sub α] [Mul α] [Div α] [Pivoting α] (a : Table α n n)
    (b : Vector α n) (ignore : Bool) {k : Fin n} (hk : isRetired a b ignore k = true) (j : Fin n) :
    ((solve a b ignore).2.get k).get j = (a.get k).get j ∧
      ((solve a b ignore).2.get j).get k = (a.get j).get k := by
  obtain ⟨harr, htogether, hret⟩ := start_spec a b ignore
  have hplace := (hret ((start a b ignore).equations.symm k)).mp
    (by rwa [Equiv.apply_symm_apply])
  obtain ⟨hok, herror⟩ := (Untouched.refl harr).eliminate
  unfold solve
  cases he : (start a b ignore).eliminate with
  | error e => exact (herror e he).restored_eq htogether hplace j
  | ok s => exact (hok s he).substituteBack.restored_eq htogether hplace j

end Arranged

/-! ## The engine -/

/-- Outcome and solution of the engine are those of the plain elimination, and so is the table. -/
theorem solveInPlace_eq [Zero α] [Sub α] [Mul α] [Div α] [Pivoting α] (a : Table α n n)
    (b : Vector α n) (ignore : Bool) :
    ((solveInPlace a b ignore).outcome.map fun _ => (solveInPlace a b ignore).terms) =
        (Arranged.solve a b ignore).1.mapError Fault.singular ∧
      (solveInPlace a b ignore).coefficients = (Arranged.solve a b ignore).2 := by
  have h := (Shows.start a b ignore).eliminate
  unfold solveInPlace Arranged.solve
  generalize (Tableau.start a b ignore).eliminate = x at h ⊢
  generalize (Arranged.start a b ignore).eliminate = y at h ⊢
  cases h with
  | @error e e' he =>
    refine ⟨?_, he.2.coefficients_eq⟩
    show Except.error (Fault.singular e.row) = Except.error (Fault.singular e'.1)
    rw [he.1]
  | ok hs =>
    exact ⟨congrArg Except.ok hs.substituteBack.scatter, hs.substituteBack.coefficients_eq⟩

theorem ofGrid_square (a : Table α n n) (b : Vector α n) :
    Square.ofGrid ⟨n, n, a⟩ b.toArray = .ok ⟨n, a, b⟩ := by
  unfold Square.ofGrid
  rw [dif_pos rfl, dif_pos b.size_toArray]
  congr 2
  refine ext_get fun i => ?_
  rw [Vector.get_map]
  rfl

/-- A square system goes through the caller's buffers. -/
theorem solve_square [Zero α] [Sub α] [Mul α] [Div α] [Pivoting α] (a : Table α n n)
    (b : Vector α n) (ignore : Bool) :
    (solve ⟨n, n, a⟩ b.toArray ignore).outcome =
      (solveInPlace a b ignore).outcome.map fun _ =>
        ((solveInPlace a b ignore).terms.toArray,
          (⟨n, n, (solveInPlace a b ignore).coefficients⟩ : Grid α)) :=
  solve_of_ofGrid (ofGrid_square a b) ignore

theorem solve_outcome [Zero α] [Sub α] [Mul α] [Div α] [Pivoting α] (a : Table α n n)
    (b : Vector α n) (ignore : Bool) :
    (solve ⟨n, n, a⟩ b.toArray ignore).outcome =
      ((Arranged.solve a b ignore).1.mapError Fault.singular).map fun x =>
        (x.toArray, ⟨n, n, (Arranged.solve a b ignore).2⟩) := by
  obtain ⟨houtcome, htable⟩ := solveInPlace_eq a b ignore
  rw [solve_square, ← houtcome, htable]
  cases (solveInPlace a b ignore).outcome with
  | error f => rfl
  | ok u => rfl

/-- Looking through orders refines moving rows and columns, whatever the scalars do: outcome and
solution are those of the plain elimination; the caller's table is, after success and failure alike,
the moved one with both arrangements undone; so rows and columns of retired equations keep what they
held. -/
theorem solve_refines_moving [Zero α] [Sub α] [Mul α] [Div α] [Pivoting α] (a : Table α n n)
    (b : Vector α n) (ignore : Bool) :
    (solve ⟨n, n, a⟩ b.toArray ignore).outcome =
        ((Arranged.solve a b ignore).1.mapError Fault.singular).map (fun x =>
          (x.toArray, ⟨n, n, (Arranged.solve a b ignore).2⟩)) ∧
      (solveInPlace a b ignore).coefficients = (Arranged.solve a b ignore).2 ∧
      ∀ k, isRetired a b ignore k = true → ∀ j,
        ((solveInPlace a b ignore).coefficients.get k).get j = (a.get k).get j ∧
          ((solveInPlace a b ignore).coefficients.get j).get k = (a.get j).get k := by
  have htable := (solveInPlace_eq a b ignore).2
  refine ⟨solve_outcome a b ignore, htable, fun k hk j => ?_⟩
  rw [htable]
  exact Arranged.solve_untouched a b ignore hk j

/-- The second equation is retired, and row and column 1 stay as they were. -/
theorem solve_refines_moving_rational :
    isRetired #v[#v[(0 : ℚ), 0, 2], #v[0, 0, 0], #v[3, 0, 1]] #v[4, 0, 5] true 1 = true ∧
      ∀ j, ((solveInPlace #v[#v[(0 : ℚ), 0, 2], #v[0, 0, 0], #v[3, 0, 1]] #v[4, 0, 5]
          true).coefficients.get 1).get j =
            ((#v[#v[0, 0, 2], #v[0, 0, 0], #v[3, 0, 1]] : Table ℚ 3 3).get 1).get j ∧
        ((solveInPlace #v[#v[(0 : ℚ), 0, 2], #v[0, 0, 0], #v[3, 0, 1]] #v[4, 0, 5]
          true).coefficients.get j).get 1 =
            ((#v[#v[0, 0, 2], #v[0, 0, 0], #v[3, 0, 1]] : Table ℚ 3 3).get j).get 1 := by
  have hretired : isRetired #v[#v[(0 : ℚ), 0, 2], #v[0, 0, 0], #v[3, 0, 1]] #v[4, 0, 5] true 1 =
      true := by cbv
  exact ⟨hretired, (solve_refines_moving _ _ true).2.2 1 hretired⟩

end Pivotal.Elimination
