import Pivotal.Proofs.Elimination.Factorization

/-!
# What the answer of an elimination must be

`Answers B d` says which outcomes are right for the square system `B x = d`: its solution, if `B` is
nonsingular, and otherwise the first column that depends on the columns before it.  There is only one
right outcome (`Answers.unique`), whatever rows the elimination took as pivots.

`Reached B d k M t` says that `k` steps, with rows exchanged on the way, lead from `B x = d` to the
buffers `M` and `t`.  From there:

    Reached B d m M t → Answers B d (.ok (backSubstituted M t))                (Reached.solved)
    Reached B d k M t → (∀ r ≥ k, M r k = 0) → Answers B d (.error k)          (Reached.stuck)
-/

namespace Pivotal.Elimination

open Matrix

variable {F : Type*} [Field F] {m : ℕ}

/-- The first `r + 1` columns are linearly dependent. -/
def DependentUpTo (B : Matrix (Fin m) (Fin m) F) (r : ℕ) : Prop :=
  r < m ∧ ¬ LinearIndependent F fun j : { j : Fin m // j.val ≤ r } => B.col j

/-- The right outcomes for the system `B x = d`. -/
def Answers (B : Matrix (Fin m) (Fin m) F) (d : Fin m → F) : Except ℕ (Fin m → F) → Prop
  | .ok x => B.det ≠ 0 ∧ B *ᵥ x = d
  | .error row => IsLeast { r | DependentUpTo B r } row

variable {B M : Matrix (Fin m) (Fin m) F} {d t p : Fin m → F} {k : ℕ}

theorem not_dependentUpTo (hB : B.det ≠ 0) (r : ℕ) : ¬ DependentUpTo B r := by
  rintro ⟨-, hdep⟩
  have hunit : IsUnit B := (isUnit_iff_isUnit_det B).mpr (isUnit_iff_ne_zero.mpr hB)
  exact hdep ((linearIndependent_cols_iff_isUnit.mpr hunit).comp _ Subtype.val_injective)

theorem det_eq_zero_of_dependentUpTo {r : ℕ} (h : DependentUpTo B r) : B.det = 0 := by
  by_contra hB
  exact not_dependentUpTo hB r h

/-- A system has one right outcome. -/
theorem Answers.unique {x y : Except ℕ (Fin m → F)} (hx : Answers B d x) (hy : Answers B d y) :
    x = y := by
  match x, y, hx, hy with
  | .ok x, .ok y, ⟨hB, hx⟩, ⟨_, hy⟩ =>
    exact congrArg Except.ok (mulVec_injective_of_det_ne_zero hB (hx.trans hy.symm))
  | .ok _, .error _, ⟨hB, _⟩, hy => exact absurd hy.1 (not_dependentUpTo hB _)
  | .error _, .ok _, hx, ⟨hB, _⟩ => exact absurd hx.1 (not_dependentUpTo hB _)
  | .error r, .error r', hx, hy => exact congrArg Except.error (IsLeast.unique hx hy)

/-! ## The two factors -/

theorem det_lower_ne_zero (hp : ∀ q : Fin m, q.val < k → p q ≠ 0) : (lower k p M).det ≠ 0 := by
  have htri : (lower k p M).IsLowerTriangular := by
    intro r q hrq
    have hlt : r < q := hrq
    simp only [lower, of_apply, if_neg hlt.not_gt, if_neg hlt.ne', ite_self]
  rw [det_of_isLowerTriangular _ htri]
  refine Finset.prod_ne_zero_iff.mpr fun q _ => ?_
  simp only [lower, of_apply, lt_irrefl, if_false, if_true]
  split
  · next hq => exact hp q hq
  · exact one_ne_zero

/-- The columns that are done, filled up with unit columns. -/
def finished (k : ℕ) (M : Matrix (Fin m) (Fin m) F) : Matrix (Fin m) (Fin m) F :=
  of fun q c => if c.val < k then upper k M q c else (1 : Matrix (Fin m) (Fin m) F) q c

theorem det_finished (hunit : ∀ q : Fin m, q.val < k → M q q = 1) : (finished k M).det = 1 := by
  have htri : (finished k M).IsUpperTriangular := by
    intro q c hcq
    have hlt : c < q := hcq
    simp only [finished, upper, of_apply]
    by_cases hc : c.val < k
    · rw [if_pos hc, if_pos ⟨hc, hlt⟩]
    · rw [if_neg hc, one_apply_ne hlt.ne']
  rw [det_of_isUpperTriangular htri]
  refine Finset.prod_eq_one fun q _ => ?_
  simp only [finished, upper, of_apply, lt_irrefl, and_false, if_false, one_apply_eq]
  split
  · next hq => exact hunit q hq
  · rfl

theorem finished_all (M : Matrix (Fin m) (Fin m) F) : finished m M = upper m M := by
  ext q c
  simp [finished]

/-! ## Reached systems -/

/-- `k` steps, with exchanges of rows, lead from `B x = d` to the buffers `M` and `t`. -/
def Reached (B : Matrix (Fin m) (Fin m) F) (d : Fin m → F) (k : ℕ) (M : Matrix (Fin m) (Fin m) F)
    (t : Fin m → F) : Prop :=
  ∃ (σ : Equiv.Perm (Fin m)) (p : Fin m → F), Factored (B.submatrix σ id) (d ∘ σ) k p M t

namespace Reached

theorem start (B : Matrix (Fin m) (Fin m) F) (d : Fin m → F) : Reached B d 0 B d :=
  ⟨1, 0, Factored.start B d⟩

/-- Columns of the system are independent exactly when those of the reduced matrix are: they differ
by the multipliers and by the order of the rows, both of which can be undone. -/
theorem linearIndependent_iff (h : Reached B d k M t) (s : Set (Fin m)) :
    LinearIndependent F (fun j : s => B.col j) ↔
      LinearIndependent F fun j : s => (upper k M).col j := by
  obtain ⟨σ, p, hf⟩ := h
  let rows := LinearMap.funLeft F F σ
  have hrows : LinearMap.ker rows = ⊥ :=
    LinearMap.ker_eq_bot.mpr (LinearMap.funLeft_injective_of_surjective F F σ σ.surjective)
  have hlower : LinearMap.ker (lower k p M).mulVecLin = ⊥ :=
    LinearMap.ker_eq_bot.mpr (mulVec_injective_of_det_ne_zero (det_lower_ne_zero hf.pivot))
  have hcol : (rows ∘ fun j : s => B.col j) =
      (lower k p M).mulVecLin ∘ fun j : s => (upper k M).col j := by
    funext j r
    show B.submatrix σ id r j = (lower k p M *ᵥ (upper k M).col j) r
    rw [hf.matrix, mul_apply']
    rfl
  rw [← rows.linearIndependent_iff hrows, hcol, LinearMap.linearIndependent_iff _ hlower]

/-- The columns that are done are independent. -/
theorem linearIndependent_of_lt (h : Reached B d k M t) {r : ℕ} (hr : r < k) :
    LinearIndependent F fun j : { j : Fin m // j.val ≤ r } => B.col j := by
  obtain ⟨σ, p, hf⟩ := h
  refine (linearIndependent_iff ⟨σ, p, hf⟩ { j | j.val ≤ r }).mpr ?_
  have hunit : IsUnit (finished k M) := by
    rw [isUnit_iff_isUnit_det, det_finished hf.unit]
    exact isUnit_one
  have hcols := (linearIndependent_cols_iff_isUnit.mpr hunit).comp
    (Subtype.val : { j : Fin m | j.val ≤ r } → Fin m) Subtype.val_injective
  have hsame : (finished k M).col ∘ (Subtype.val : { j : Fin m | j.val ≤ r } → Fin m) =
      fun j : { j : Fin m | j.val ≤ r } => (upper k M).col j := by
    funext j q
    exact if_pos (lt_of_le_of_lt j.2 hr)
  rwa [hsame] at hcols

/-- Without a pivot, the first `k + 1` columns of the reduced matrix live in `k` rows. -/
theorem dependentUpTo (h : Reached B d k M t) {i : Fin m} (hi : i.val = k)
    (hzero : ∀ r : Fin m, i ≤ r → M r i = 0) : DependentUpTo B k := by
  refine ⟨hi ▸ i.isLt, fun hind => ?_⟩
  replace hind := (h.linearIndependent_iff { j | j.val ≤ k }).mp hind
  let top : { j : Fin m | j.val ≤ k } → Fin k → F :=
    fun j q => upper k M ⟨q, by omega⟩ j
  let extend := Function.ExtendByZero.linearMap F (Fin.castLE (by omega : k ≤ m))
  have hrows : (fun j : { j : Fin m | j.val ≤ k } => (upper k M).col j) = extend ∘ top := by
    funext j q
    show upper k M q j = Function.extend (Fin.castLE _) (top j) 0 q
    by_cases hq : q.val < k
    · exact ((Fin.castLE_injective (by omega : k ≤ m)).extend_apply (top j) 0 ⟨q, hq⟩).symm
    · rw [Function.extend_apply' _ _ _ (by rintro ⟨q', rfl⟩; exact hq q'.isLt)]
      by_cases hj : j.val.val < k
      · exact if_pos ⟨hj, by rw [Fin.lt_def]; omega⟩
      · have hjk : j.val.val ≤ k := j.2
        have hji : j.val = i := Fin.ext (by omega)
        refine (if_neg fun e => hj e.1).trans ?_
        rw [hji]
        exact hzero q (by rw [Fin.le_def]; omega)
  rw [hrows] at hind
  have hcard := (LinearIndependent.of_comp extend hind).fintype_card_le_finrank
  have hcols : Fintype.card { j : Fin m | j.val ≤ k } = k + 1 := by
    let index : { j : Fin m | j.val ≤ k } ≃ Fin (k + 1) :=
      ⟨fun j => ⟨j.val.val, Nat.lt_succ_of_le j.2⟩, fun j => ⟨⟨j, by omega⟩, Nat.le_of_lt_succ j.2⟩,
        fun _ => rfl, fun _ => rfl⟩
    rw [Fintype.card_congr index, Fintype.card_fin]
  rw [hcols, Module.finrank_fin_fun] at hcard
  omega

/-- A column without a pivot is the first that depends on the columns before it. -/
theorem stuck (h : Reached B d k M t) {i : Fin m} (hi : i.val = k)
    (hzero : ∀ r : Fin m, i ≤ r → M r i = 0) : Answers B d (.error k) := by
  refine ⟨h.dependentUpTo hi hzero, fun r hr => ?_⟩
  by_contra hlt
  exact hr.2 (h.linearIndependent_of_lt (not_le.mp hlt))

end Reached

/-! ## Back substitution -/

/-- The free terms once the value in place `i` is taken out of the rows above it. -/
def discharged (M : Matrix (Fin m) (Fin m) F) (t : Fin m → F) (i : Fin m) : Fin m → F := fun r =>
  if r < i then t r - M r i * t i else t r

/-- The free terms after the back substitution. -/
def backSubstituted (M : Matrix (Fin m) (Fin m) F) (t : Fin m → F) : Fin m → F :=
  (List.finRange m).reverse.foldl (discharged M) t

/-- Taking out the values of the listed places, the last first: each free term is what is left of it
and what was taken out. -/
theorem foldr_discharged (M : Matrix (Fin m) (Fin m) F) (t : Fin m → F) (l : List (Fin m))
    (hl : l.Pairwise (· < ·)) (r : Fin m) :
    t r = l.foldr (fun i y => discharged M y i) t r +
      ∑ c, if c ∈ l ∧ r < c then M r c * l.foldr (fun i y => discharged M y i) t c else 0 := by
  induction l with
  | nil => simp
  | cons i l ih =>
    obtain ⟨hi, hl⟩ := List.pairwise_cons.mp hl
    rw [List.foldr_cons]
    have hy := ih hl
    generalize l.foldr (fun i y => discharged M y i) t = y at hy ⊢
    have hkept : ∀ c, i ≤ c → discharged M y i c = y c := fun c hc => if_neg (not_lt.mpr hc)
    have hsum : ∀ c, (if c ∈ i :: l ∧ r < c then M r c * discharged M y i c else 0) =
        (if c ∈ l ∧ r < c then M r c * y c else 0) +
          if c = i then if r < i then M r i * y i else 0 else 0 := by
      intro c
      by_cases hci : c = i
      · subst hci
        have hnot : c ∉ l := fun h => lt_irrefl c (hi c h)
        simp [hnot, hkept c le_rfl]
      · by_cases hcl : c ∈ l
        · simp [hci, hcl, hkept c (le_of_lt (hi c hcl))]
        · simp [hci, hcl]
    rw [Finset.sum_congr rfl fun c _ => hsum c, Finset.sum_add_distrib, Finset.sum_ite_eq']
    simp only [Finset.mem_univ, if_true, discharged]
    by_cases hr : r < i
    · rw [if_pos hr, if_pos hr, hy]
      ring
    · rw [if_neg hr, if_neg hr, add_zero]
      exact hy

/-- Back substitution solves a unit upper triangular system. -/
theorem upper_mulVec_backSubstituted (M : Matrix (Fin m) (Fin m) F) (t : Fin m → F)
    (hunit : ∀ q, M q q = 1) : upper m M *ᵥ backSubstituted M t = t := by
  funext r
  have h := foldr_discharged M t (List.finRange m) (List.pairwise_lt_finRange m) r
  rw [← List.foldl_reverse] at h
  change t r = backSubstituted M t r +
    ∑ c, if c ∈ List.finRange m ∧ r < c then M r c * backSubstituted M t c else 0 at h
  rw [h]
  simp only [mulVec, dotProduct]
  have hterm : ∀ c, upper m M r c * backSubstituted M t c =
      (if c = r then backSubstituted M t c else 0) +
        if c ∈ List.finRange m ∧ r < c then M r c * backSubstituted M t c else 0 := by
    intro c
    simp only [upper, of_apply, c.isLt, true_and, List.mem_finRange]
    rcases lt_trichotomy c r with hc | hc | hc
    · simp [hc, hc.ne, hc.not_gt]
    · simp [hc, hunit]
    · simp [hc, hc.ne', hc.not_gt]
  rw [Finset.sum_congr rfl fun c _ => hterm c, Finset.sum_add_distrib, Finset.sum_ite_eq']
  simp

/-- A run that finds all its pivots ends with the solution. -/
theorem Reached.solved (h : Reached B d m M t) : Answers B d (.ok (backSubstituted M t)) := by
  obtain ⟨σ, p, hf⟩ := h
  have hdet : (B.submatrix σ id).det ≠ 0 := by
    rw [hf.matrix, det_mul, ← finished_all, det_finished hf.unit, mul_one]
    exact det_lower_ne_zero hf.pivot
  refine ⟨fun hB => hdet ?_, ?_⟩
  · rw [det_permute, hB, mul_zero]
  · have hrows : B.submatrix σ id *ᵥ backSubstituted M t = d ∘ σ := by
      rw [hf.matrix, ← mulVec_mulVec, upper_mulVec_backSubstituted M t fun q => hf.unit q q.isLt,
        ← hf.terms]
    funext r
    have hr := congrFun hrows (σ.symm r)
    simp only [Function.comp_apply, Equiv.apply_symm_apply] at hr
    rw [← hr]
    simp [mulVec, dotProduct]

end Pivotal.Elimination
