import Mathlib

/-!
# The half-overwritten matrix as a factorization

Elimination over a field, on a square matrix `M` and a vector `t` of free terms.  A step in place `i`
(`cleared`, `clearedTerms`) divides row `i` by the pivot and subtracts it from the rows below.  The
entry it clears is not written: it stays below the diagonal as a multiplier.  So after `k` steps the
buffer `M` holds two matrices at once, the multipliers `lower k p M` with the pivots `p` on their
diagonal, and the reduced matrix `upper k M`, and their product is the system the run started from:

    Factored B d k p M t → B = lower k p M * upper k M ∧ d = lower k p M *ᵥ t

Exchanging rows from place `k` on keeps this for the exchanged system (`Factored.exchange`), and so
does a step with a non-zero pivot (`Factored.clear`).
-/

namespace Pivotal.Elimination

open Matrix

variable {F : Type*} [Field F] {m : ℕ}

/-! ## Steps -/

/-- The matrix after the step in place `i`. -/
def cleared (i : Fin m) (M : Matrix (Fin m) (Fin m) F) : Matrix (Fin m) (Fin m) F :=
  of fun r c =>
    if r = i then if i ≤ c then M i c / M i i else M i c
    else if i < r ∧ i < c then M r c - M r i * (M i c / M i i)
    else M r c

/-- A column of free terms after the step in place `i`. -/
def clearedTerms (i : Fin m) (M : Matrix (Fin m) (Fin m) F) (t : Fin m → F) : Fin m → F := fun r =>
  if r = i then t i / M i i else if i < r then t r - M r i * (t i / M i i) else t r

/-- The multipliers of the first `k` steps, with the pivots on the diagonal. -/
def lower (k : ℕ) (p : Fin m → F) (M : Matrix (Fin m) (Fin m) F) : Matrix (Fin m) (Fin m) F :=
  of fun r q =>
    if q.val < k then if q < r then M r q else if q = r then p q else 0
    else if q = r then 1 else 0

/-- The reduced matrix after `k` steps: zero where a step cleared an entry without writing it. -/
def upper (k : ℕ) (M : Matrix (Fin m) (Fin m) F) : Matrix (Fin m) (Fin m) F :=
  of fun q c => if c.val < k ∧ c < q then 0 else M q c

/-- After `k` steps with the pivots `p`, the buffers `M` and `t` hold a factorization of the system
`B x = d`. -/
structure Factored (B : Matrix (Fin m) (Fin m) F) (d : Fin m → F) (k : ℕ) (p : Fin m → F)
    (M : Matrix (Fin m) (Fin m) F) (t : Fin m → F) : Prop where
  matrix : B = lower k p M * upper k M
  terms : d = lower k p M *ᵥ t
  unit : ∀ q : Fin m, q.val < k → M q q = 1
  pivot : ∀ q : Fin m, q.val < k → p q ≠ 0

variable {B M : Matrix (Fin m) (Fin m) F} {d t p : Fin m → F} {k : ℕ}

theorem lower_zero (p : Fin m → F) (M : Matrix (Fin m) (Fin m) F) : lower 0 p M = 1 := by
  ext r q
  simp [lower, one_apply, eq_comm]

theorem upper_zero (M : Matrix (Fin m) (Fin m) F) : upper 0 M = M := by
  ext q c
  simp [upper]

theorem Factored.start (B : Matrix (Fin m) (Fin m) F) (d : Fin m → F) :
    Factored B d 0 0 B d := by
  refine ⟨?_, ?_, fun q hq => absurd hq (Nat.not_lt_zero _),
    fun q hq => absurd hq (Nat.not_lt_zero _)⟩
  · rw [lower_zero, upper_zero, one_mul]
  · rw [lower_zero, one_mulVec]

/-! ## Exchanging rows -/

/-- An exchange of places from `k` on keeps the places before `k` and the order across `k`. -/
theorem swap_lt_iff {i j : Fin m} (hi : k ≤ i.val) (hj : k ≤ j.val) {q : Fin m} (hq : q.val < k)
    (r : Fin m) : (q < Equiv.swap i j r ↔ q < r) ∧ (q = Equiv.swap i j r ↔ q = r) := by
  have hqi : q.val < i.val := by omega
  have hqj : q.val < j.val := by omega
  rw [Equiv.swap_apply_def]
  split
  · next h => subst h; exact ⟨iff_of_true hqj hqi, iff_of_false (by omega) (by omega)⟩
  · split
    · next h => subst h; exact ⟨iff_of_true hqi hqj, iff_of_false (by omega) (by omega)⟩
    · exact ⟨Iff.rfl, Iff.rfl⟩

theorem lower_exchange {i j : Fin m} (hi : k ≤ i.val) (hj : k ≤ j.val) :
    lower k p (M.submatrix (Equiv.swap i j) id) =
      (lower k p M).submatrix (Equiv.swap i j) (Equiv.swap i j) := by
  ext r q
  simp only [lower, of_apply, submatrix_apply, id_eq]
  by_cases hq : q.val < k
  · have hfix : Equiv.swap i j q = q :=
      Equiv.swap_apply_of_ne_of_ne (Fin.ne_of_val_ne (by omega)) (Fin.ne_of_val_ne (by omega))
    obtain ⟨hlt, heq⟩ := swap_lt_iff hi hj hq r
    rw [hfix, if_pos hq, if_pos hq, if_congr hlt rfl rfl, if_congr heq rfl rfl]
  · have hq' : ¬ (Equiv.swap i j q).val < k := by
      rw [Equiv.swap_apply_def]
      split
      · omega
      · split <;> omega
    rw [if_neg hq, if_neg hq']
    simp only [EmbeddingLike.apply_eq_iff_eq]

theorem upper_exchange {i j : Fin m} (hi : k ≤ i.val) (hj : k ≤ j.val) :
    upper k (M.submatrix (Equiv.swap i j) id) = (upper k M).submatrix (Equiv.swap i j) id := by
  ext q c
  simp only [upper, of_apply, submatrix_apply, id_eq]
  by_cases hc : c.val < k
  · have hlt := (swap_lt_iff hi hj hc q).1
    rw [if_congr (and_congr Iff.rfl hlt.symm) rfl rfl]
  · rw [if_neg (fun h => hc h.1), if_neg (fun h => hc h.1)]

theorem Factored.exchange (h : Factored B d k p M t) {i j : Fin m} (hi : k ≤ i.val)
    (hj : k ≤ j.val) :
    Factored (B.submatrix (Equiv.swap i j) id) (d ∘ Equiv.swap i j) k p
      (M.submatrix (Equiv.swap i j) id) (t ∘ Equiv.swap i j) := by
  refine ⟨?_, ?_, fun q hq => ?_, h.pivot⟩
  · rw [lower_exchange hi hj, upper_exchange hi hj, submatrix_mul_equiv, ← h.matrix]
  · rw [lower_exchange hi hj, submatrix_mulVec_equiv, h.terms]
    congr 2
    funext r
    simp
  · have hfix : Equiv.swap i j q = q :=
      Equiv.swap_apply_of_ne_of_ne (Fin.ne_of_val_ne (by omega)) (Fin.ne_of_val_ne (by omega))
    rw [submatrix_apply, hfix]
    exact h.unit q hq

/-! ## Clearing a column -/

/-- A step leaves the columns before its own alone. -/
theorem cleared_of_lt {i q : Fin m} (hq : q < i) (r : Fin m) : cleared i M r q = M r q := by
  simp only [cleared, of_apply]
  by_cases hr : r = i
  · rw [if_pos hr, if_neg (not_le.mpr hq), hr]
  · rw [if_neg hr, if_neg (fun h => absurd h.2 hq.not_gt)]

/-- A step leaves the free terms above its row alone. -/
theorem clearedTerms_of_lt {i q : Fin m} (hq : q < i) (u : Fin m → F) :
    clearedTerms i M u q = u q := by
  simp [clearedTerms, hq.ne, hq.not_gt]

/-- One column of the factorization through a step: the multipliers of the step take back what it
did to the column.  Entry by entry the two sums differ in the pivot's column, which gains `x`, and
in the row's own, which loses it. -/
theorem lower_cleared_apply {i : Fin m} (hi : i.val = k) (hp : M i i ≠ 0) (u : Fin m → F)
    (r q : Fin m) :
    lower (k + 1) (Function.update p i (M i i)) (cleared i M) r q * clearedTerms i M u q =
      lower k p M r q * u q +
        ((if q = i then if i < r then M r i * (u i / M i i) else 0 else 0) -
          if q = r then if i < r then M r i * (u i / M i i) else 0 else 0) := by
  rcases lt_trichotomy q i with hq | hq | hq
  · -- An earlier column: the step changes neither the multipliers nor the term.
    have hqk : q.val < k := by rw [← hi]; exact hq
    have hx : (if q = r then if i < r then M r i * (u i / M i i) else 0 else 0) = 0 := by
      by_cases hr : q = r
      · rw [if_pos hr, if_neg (hr ▸ hq.not_gt)]
      · rw [if_neg hr]
    rw [clearedTerms_of_lt hq, hx, if_neg hq.ne, sub_zero, add_zero]
    simp only [lower, of_apply, cleared_of_lt hq, if_pos hqk, if_pos (Nat.lt_succ_of_lt hqk),
      Function.update_of_ne hq.ne]
  · -- The pivot's own column.
    subst hq
    have hterm : clearedTerms q M u q = u q / M q q := by simp [clearedTerms]
    rw [hterm, if_pos rfl]
    simp only [lower, of_apply, hi, lt_irrefl, if_false, Nat.lt_succ_self, if_true,
      Function.update_self]
    by_cases hqr : q < r
    · have hentry : cleared q M r q = M r q := by
        simp [cleared, hqr.ne']
      simp only [if_pos hqr, if_neg hqr.ne, hentry]
      ring
    · by_cases hr : q = r
      · subst hr
        simp only [lt_irrefl, if_false, if_true, sub_zero, add_zero, one_mul]
        field_simp
      · simp only [if_neg hqr, if_neg hr, zero_mul, sub_zero, add_zero]
  · -- A later column: only its diagonal entry counts.
    have hqk : ¬ q.val < k := by rw [← hi]; exact not_lt.mpr (le_of_lt hq)
    have hqk' : ¬ q.val < k + 1 := by rw [← hi]; exact fun h => absurd hq (by omega)
    rw [if_neg hq.ne']
    simp only [lower, of_apply, if_neg hqk, if_neg hqk']
    by_cases hr : q = r
    · subst hr
      simp only [if_true, if_pos hq, clearedTerms, if_neg hq.ne']
      ring
    · simp only [if_neg hr, zero_mul, sub_zero, add_zero]

theorem lower_cleared_mulVec {i : Fin m} (hi : i.val = k) (hp : M i i ≠ 0) (u : Fin m → F) :
    lower (k + 1) (Function.update p i (M i i)) (cleared i M) *ᵥ clearedTerms i M u =
      lower k p M *ᵥ u := by
  funext r
  simp only [mulVec, dotProduct, lower_cleared_apply hi hp u r]
  rw [Finset.sum_add_distrib, Finset.sum_sub_distrib, Finset.sum_ite_eq', Finset.sum_ite_eq']
  simp

/-- Every column of the reduced matrix goes through the step as a column of free terms does. -/
theorem upper_cleared {i : Fin m} (hi : i.val = k) (hp : M i i ≠ 0) (q c : Fin m) :
    upper (k + 1) (cleared i M) q c = clearedTerms i M (fun q => upper k M q c) q := by
  simp only [upper, of_apply, clearedTerms, cleared]
  subst hi
  rcases lt_trichotomy c i with hc | hc | hc
  · -- A column cleared before: zero below its diagonal on both sides.
    have hci : c.val < i.val := hc
    have hle : ¬ i ≤ c := not_le.mpr hc
    simp only [hci, Nat.lt_succ_of_lt hci, hc, hle, hc.not_gt, true_and, and_true, and_false,
      if_true, if_false, zero_div, mul_zero, sub_zero]
    by_cases hq : q = i
    · simp [hq, hc]
    · by_cases hiq : i < q
      · simp [hq, hc.trans hiq]
      · simp [hq, hiq]
  · subst hc
    simp only [lt_irrefl, Nat.lt_succ_self, false_and, true_and, and_false, if_false, div_self hp,
      mul_one, le_refl, if_true]
    by_cases hq : q = c
    · simp [hq]
    · by_cases hcq : c < q
      · simp [hq, hcq]
      · simp [hq, hcq]
  · have hci : ¬ c.val < i.val := not_lt.mpr (le_of_lt hc)
    have hci' : ¬ c.val < i.val + 1 := fun h => absurd hc (by omega)
    simp only [hci, hci', hc, hc.le, false_and, and_true, if_true, if_false]

theorem Factored.clear (h : Factored B d k p M t) {i : Fin m} (hi : i.val = k) (hp : M i i ≠ 0) :
    Factored B d (k + 1) (Function.update p i (M i i)) (cleared i M) (clearedTerms i M t) := by
  refine ⟨?_, ?_, fun q hq => ?_, fun q hq => ?_⟩
  · ext r c
    have hcol : (fun q => upper (k + 1) (cleared i M) q c) =
        clearedTerms i M (fun q => upper k M q c) := funext fun q => upper_cleared hi hp q c
    have hprod := congrFun (lower_cleared_mulVec (p := p) hi hp (fun q => upper k M q c)) r
    rw [h.matrix, mul_apply', mul_apply', hcol]
    exact hprod.symm
  · rw [lower_cleared_mulVec hi hp, ← h.terms]
  · by_cases hqi : q = i
    · subst hqi
      simp only [cleared, of_apply, if_true, le_refl, div_self hp]
    · have hlt : q < i := lt_of_le_of_ne (by rw [Fin.le_def]; omega) hqi
      rw [cleared_of_lt hlt]
      exact h.unit q (by rw [← hi]; exact hlt)
  · by_cases hqi : q = i
    · rw [hqi, Function.update_self]
      exact hp
    · rw [Function.update_of_ne hqi]
      have hlt : q.val ≠ i.val := fun e => hqi (Fin.ext e)
      exact h.pivot q (by omega)

end Pivotal.Elimination
