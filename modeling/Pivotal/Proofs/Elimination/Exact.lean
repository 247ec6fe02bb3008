import Pivotal.Proofs.Elimination.Blocks
import Pivotal.Proofs.Elimination.Magnitude

/-!
# The numeric engine over a field

With exact scalars and a magnitude that is least exactly at zero, the active block of a system is
carried through the steps of `Factorization`: the row of greatest magnitude is a pivot unless the
whole column is zero.  So the engine gives the right answer to the active system
(`eliminate_answers`).
-/

namespace Pivotal.Elimination

open Matrix

variable {F : Type*} [Field F] [Pivoting F] {L : Type*} [LinearOrder L] {n m : ℕ}

omit [Pivoting F] in
/-- A line that column `i` spares is not changed by the subtraction. -/
theorem Line.reduced_of_zero (l p : Line F n) (i : Fin n) (h : l.coefficient i = 0) :
    l.reduced m i p = l := by
  ext c
  · simp [Line.reduced, h]
  · simp [Line.reduced, h]

namespace Arranged

/-- The leading block as a matrix. -/
abbrev block (s : Arranged F n) (h : m ≤ n) : Matrix (Fin m) (Fin m) F := blockOf s.line h

/-- The free terms of the leading block. -/
abbrev blockTerms (s : Arranged F n) (h : m ≤ n) : Fin m → F := blockTermsOf s.line h

/-- What one step makes of each line of the block; a multiple of zero that is left out would not have
changed its line. -/
theorem line_clear (hz : ∀ x : F, isZero x = true ↔ x = 0) (s : Arranged F n) (h : m ≤ n)
    (hm : s.active = m) (i r : Fin m) :
    ((s.normalize (Fin.castLE h i)).reduceBelow (Fin.castLE h i)).line (Fin.castLE h r) =
      if r = i then (s.line (Fin.castLE h i)).divided m (Fin.castLE h i)
      else if i < r then
        (s.line (Fin.castLE h r)).reduced m (Fin.castLE h i)
          ((s.line (Fin.castLE h i)).divided m (Fin.castLE h i))
      else s.line (Fin.castLE h r) := by
  rw [(s.clear_spec (Fin.castLE h i)).2, hm]
  simp only [Fin.castLE_inj, Fin.castLE_lt_castLE_iff, Fin.val_castLE, r.isLt, and_true]
  by_cases hr : r = i
  · rw [if_pos hr, if_pos hr]
  · rw [if_neg hr, if_neg hr]
    by_cases hlt : i < r
    · rw [if_pos hlt, if_pos hlt]
      split
      · next hzero => exact (Line.reduced_of_zero _ _ _ ((hz _).mp hzero)).symm
      · rfl
    · rw [if_neg hlt, if_neg hlt]

/-! ## Forward elimination -/

/-- The chosen row has the greatest magnitude in its column. -/
theorem le_bestRow {mag : F → L} (hmag : IsMagnitude mag) (s : Arranged F n) (i r : Fin n)
    (hr : i ≤ r) (hact : r.val < s.active) :
    mag (s.entry r i) ≤ mag (s.entry (s.bestRow i) i) := by
  refine hmag.le_foldl (fun j => s.entry j i) (s.places (i.val + 1)) i ?_
  rcases eq_or_lt_of_le hr with rfl | hlt
  · exact List.mem_cons_self
  · exact List.mem_cons_of_mem i ((s.mem_places _ r).mpr ⟨hlt, hact⟩)

/-- If the chosen entry is zero, so is the column from its place on. -/
theorem column_zero {mag : F → L} (hmag : IsMagnitude mag) (s : Arranged F n) (i r : Fin n)
    (hr : i ≤ r) (hact : r.val < s.active) (hz : isZero (s.entry (s.bestRow i) i) = true) :
    s.entry r i = 0 := by
  have hle := le_bestRow hmag s i r hr hact
  rw [(hmag.isZero_iff _).mp hz] at hle
  exact (hmag.minimal_iff _).mp fun y => hle.trans ((hmag.minimal_iff 0).mpr rfl y)

/-- A step that goes through, in places of the block. -/
theorem step_ok_block (hz : ∀ x : F, isZero x = true ↔ x = 0) {s s' : Arranged F n} (h : m ≤ n)
    (hm : s.active = m) {i : Fin m} (hstep : s.step (Fin.castLE h i) = .ok s') :
    ∃ best : Fin m, i ≤ best ∧ s.entry (Fin.castLE h best) (Fin.castLE h i) ≠ 0 ∧
      s' = ((s.swapRows (Fin.castLE h i) (Fin.castLE h best)).normalize
        (Fin.castLE h i)).reduceBelow (Fin.castLE h i) := by
  obtain ⟨hzero, rfl⟩ := step_ok hstep
  have hi : (Fin.castLE h i).val < s.active := by
    rw [hm]
    exact i.isLt
  obtain ⟨hle, hact⟩ := s.bestRow_mem _ hi
  rw [hm] at hact
  exact ⟨⟨s.bestRow (Fin.castLE h i), hact⟩, hle,
    fun e => Bool.false_ne_true (hzero.symm.trans ((hz _).mpr e)), rfl⟩

/-- The block of `s` is reached from that of `s₀` in `k` steps; the variables have not moved. -/
structure BlockReached (s₀ : Arranged F n) (h : m ≤ n) (k : ℕ) (s : Arranged F n) : Prop where
  active : s.active = m
  unknowns : s.unknowns = s₀.unknowns
  reached : Reached (s₀.block h) (s₀.blockTerms h) k (s.block h) (s.blockTerms h)

theorem BlockReached.clear {mag : F → L} (hmag : IsMagnitude mag) {s₀ s : Arranged F n}
    {h : m ≤ n} {i : Fin m} (hs : BlockReached s₀ h i s) (best : Fin m) (hbest : i ≤ best)
    (hpivot : s.entry (Fin.castLE h best) (Fin.castLE h i) ≠ 0) :
    BlockReached s₀ h (i + 1) (((s.swapRows (Fin.castLE h i) (Fin.castLE h best)).normalize
      (Fin.castLE h i)).reduceBelow (Fin.castLE h i)) := by
  have hstill := ((s.swapRows (Fin.castLE h i) (Fin.castLE h best)).clear_spec (Fin.castLE h i)).1
  refine ⟨hstill.active.trans hs.active, hstill.unknowns.trans hs.unknowns, ?_⟩
  exact hs.reached.exchange_clear hbest hpivot
    (s.line_swapRows (Fin.castLE h i) (Fin.castLE h best))
    (line_clear hmag.isZero_iff (s.swapRows (Fin.castLE h i) (Fin.castLE h best)) h hs.active i)

theorem eliminate_reached {mag : F → L} (hmag : IsMagnitude mag) (s₀ : Arranged F n) :
    (∀ s, s₀.eliminate = .ok s → BlockReached s₀ s₀.active_le s₀.active s) ∧
      ∀ e, s₀.eliminate = .error e →
        Answers (s₀.block s₀.active_le) (s₀.blockTerms s₀.active_le) (.error e.1) := by
  rw [eliminate_eq]
  refine foldlM_finRange (BlockReached s₀ s₀.active_le) (fun e : ℕ × Arranged F n =>
    Answers (s₀.block s₀.active_le) (s₀.blockTerms s₀.active_le) (.error e.1)) ?_ ?_ s₀
    ⟨rfl, rfl, Reached.start _ _⟩
  · intro i s s' hs hstep
    obtain ⟨best, hbest, hpivot, rfl⟩ := step_ok_block hmag.isZero_iff s₀.active_le hs.active hstep
    exact hs.clear hmag best hbest hpivot
  · intro i s e hs hstep
    obtain ⟨hz, rfl⟩ := step_error hstep
    refine hs.reached.stuck rfl fun r hr => ?_
    exact column_zero hmag s _ _ hr (by rw [hs.active]; exact r.isLt) hz

/-! ## Back substitution -/

omit [Pivoting F] in
theorem block_substituteBack (s : Arranged F n) (h : m ≤ n) (hm : s.active = m) :
    Still s s.substituteBack ∧
      s.substituteBack.blockTerms h = backSubstituted (s.block h) (s.blockTerms h) := by
  subst hm
  constructor
  · exact List.foldlRecOn _ _ (Still.refl s) fun s' hs i _ => hs.trans (s'.dischargeAbove_spec i).1
  · unfold substituteBack
    rw [places_zero, ← List.map_reverse, List.foldl_map]
    exact blockTermsOf_substituteBack line dischargeAbove (fun s' i => (s'.dischargeAbove_spec i).2)
      h s

/-- The engine answers the active system. -/
theorem eliminate_answers {mag : F → L} (hmag : IsMagnitude mag) (s₀ : Arranged F n) :
    (∀ s, s₀.eliminate = .ok s → s.substituteBack.active = s₀.active ∧
        s.substituteBack.unknowns = s₀.unknowns ∧
        Answers (s₀.block s₀.active_le) (s₀.blockTerms s₀.active_le)
          (.ok (s.substituteBack.blockTerms s₀.active_le))) ∧
      ∀ e, s₀.eliminate = .error e →
        Answers (s₀.block s₀.active_le) (s₀.blockTerms s₀.active_le) (.error e.1) := by
  obtain ⟨hok, herror⟩ := eliminate_reached hmag s₀
  refine ⟨fun s he => ?_, herror⟩
  have hs := hok s he
  obtain ⟨hstill, hterms⟩ := s.block_substituteBack s₀.active_le hs.active
  refine ⟨hstill.active.trans hs.active, hstill.unknowns.trans hs.unknowns, ?_⟩
  rw [hterms]
  exact hs.reached.solved

end Arranged

end Pivotal.Elimination
