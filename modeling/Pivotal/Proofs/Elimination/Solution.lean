import Pivotal.Proofs.Elimination.Exact
import Pivotal.Proofs.Elimination.InPlace

/-!
# The caller's system and its active part

The numeric engine solves the active system (`Exact`); what it hands back is an answer to the
caller's.  With the left-out variables at zero, the two systems have the same solutions
(`mulVec_eq_iff_active`) and the active block has the determinant of the submatrix on the equations
that are not left out (`det_block`).  The main statement is `solve_exact`.
-/

namespace Pivotal.Elimination

open Matrix

variable {F : Type*} [Field F] [Pivoting F] {L : Type*} [LinearOrder L] {n m : ℕ}

namespace Arranged

omit [Pivoting F] in
theorem get_scatter (s : Arranged F n) (k : Fin n) :
    s.scatter.get (s.unknowns k) = if k.val < s.active then s.term k else 0 := by
  have hfold := get_foldl_put s.unknowns s.unknowns.injective (fun k _ => s.term k) (s.places 0)
    (s.nodup_places 0) (Vector.replicate n 0) k
  rw [Vector.get_replicate] at hfold
  simp only [mem_places, Nat.zero_le, true_and] at hfold
  exact hfold

end Arranged

/-- The coefficients as a matrix. -/
def matrixOf (a : Table F n n) : Matrix (Fin n) (Fin n) F := of fun i j => (a.get i).get j

/-- The identity equations that a run leaves out: row, column and free term are all zero. -/
def leftOut (a : Table F n n) (b : Vector F n) (ignore : Bool) : Set (Fin n) :=
  { k | ignore = true ∧ b.get k = 0 ∧ (∀ j, (a.get k).get j = 0) ∧ ∀ i, (a.get i).get k = 0 }

/-- The active system in the order in which the elimination meets it. -/
def Tableau.activeMatrix (t : Tableau F n) : Matrix (Fin t.active) (Fin t.active) F :=
  of fun i j => t.entry (Fin.castLE t.active_le i) (Fin.castLE t.active_le j)

theorem mem_leftOut_iff (hz : ∀ x : F, isZero x = true ↔ x = 0) (a : Table F n n) (b : Vector F n)
    (ignore : Bool) (k : Fin n) : k ∈ leftOut a b ignore ↔ isRetired a b ignore k = true := by
  unfold isRetired
  rw [Bool.and_eq_true, isIdentity_iff]
  simp only [hz]
  exact Iff.rfl

omit [Pivoting F] in
/-- A sum over all places whose terms vanish behind the block. -/
theorem sum_block (h : m ≤ n) (f : Fin n → F) (hf : ∀ j : Fin n, m ≤ j.val → f j = 0) :
    ∑ j, f j = ∑ j : Fin m, f (Fin.castLE h j) := by
  have hmap := Finset.sum_map Finset.univ (Fin.castLEEmb h) f
  refine (Finset.sum_subset (Finset.subset_univ _) fun j _ hj => hf j ?_).symm.trans hmap
  by_contra hlt
  exact hj (Finset.mem_map.mpr ⟨⟨j, by omega⟩, Finset.mem_univ _, rfl⟩)

/-! ## The active system -/

/-- The coefficients of the active system of a run. -/
def activeBlock (a : Table F n n) (b : Vector F n) (ignore : Bool) :
    Matrix (Fin (Arranged.start a b ignore).active) (Fin (Arranged.start a b ignore).active) F :=
  (Arranged.start a b ignore).block (Arranged.start a b ignore).active_le

/-- The free terms of the active system of a run. -/
def activeTerms (a : Table F n n) (b : Vector F n) (ignore : Bool) :
    Fin (Arranged.start a b ignore).active → F :=
  (Arranged.start a b ignore).blockTerms (Arranged.start a b ignore).active_le

/-- The values of the active variables. -/
def activePart (a : Table F n n) (b : Vector F n) (ignore : Bool) (z : Fin n → F) :
    Fin (Arranged.start a b ignore).active → F :=
  fun j => z ((Arranged.start a b ignore).unknowns
    (Fin.castLE (Arranged.start a b ignore).active_le j))

/-- With the left-out variables at zero, a vector solves the caller's system exactly when its active
part solves the active system. -/
theorem mulVec_eq_iff_active (hz : ∀ x : F, isZero x = true ↔ x = 0) (a : Table F n n)
    (b : Vector F n) (ignore : Bool) (z : Fin n → F) (hzero : ∀ k ∈ leftOut a b ignore, z k = 0) :
    matrixOf a *ᵥ z = b.get ↔
      activeBlock a b ignore *ᵥ activePart a b ignore z = activeTerms a b ignore := by
  show _ ↔ (Arranged.start a b ignore).block (Arranged.start a b ignore).active_le *ᵥ
      (fun j => z ((Arranged.start a b ignore).unknowns
        (Fin.castLE (Arranged.start a b ignore).active_le j))) =
    (Arranged.start a b ignore).blockTerms (Arranged.start a b ignore).active_le
  obtain ⟨harr, htogether, hret⟩ := Arranged.start_spec a b ignore
  generalize Arranged.start a b ignore = s at harr htogether hret ⊢
  have hbehind : ∀ j : Fin n, s.active ≤ j.val → s.equations j ∈ leftOut a b ignore :=
    fun j hj => (mem_leftOut_iff hz a b ignore _).mpr ((hret j).mpr hj)
  -- Row by row: the retired variables contribute nothing.
  have hrow : ∀ i : Fin n, (matrixOf a *ᵥ z) (s.equations i) =
      ∑ j : Fin s.active, s.entry i (Fin.castLE s.active_le j) *
        z (s.unknowns (Fin.castLE s.active_le j)) := by
    intro i
    have hsum := sum_block s.active_le (fun j => s.entry i j * z (s.unknowns j)) fun j hj => by
      rw [htogether, hzero _ (hbehind j hj), mul_zero]
    rw [← hsum]
    show ∑ c, (a.get (s.equations i)).get c * z c = _
    rw [← Equiv.sum_comp s.unknowns]
    exact Finset.sum_congr rfl fun j _ => by rw [harr.entry]
  constructor
  · intro h
    funext i
    have hi := congrFun h (s.equations (Fin.castLE s.active_le i))
    rw [hrow, ← harr.term] at hi
    exact hi
  · intro h
    funext r
    obtain ⟨i, rfl⟩ := s.equations.surjective r
    rw [hrow]
    by_cases hi : i.val < s.active
    · have hi' := congrFun h ⟨i, hi⟩
      rw [← harr.term]
      exact hi'
    · -- A retired equation reads `0 = 0`.
      obtain ⟨-, hb, hzrow, -⟩ := hbehind i (not_lt.mp hi)
      rw [hb]
      refine Finset.sum_eq_zero fun j _ => ?_
      rw [harr.entry, hzrow, zero_mul]

/-- Two vectors with the left-out variables at zero and one active part are one vector. -/
theorem eq_of_activePart_eq (hz : ∀ x : F, isZero x = true ↔ x = 0) {a : Table F n n}
    {b : Vector F n} {ignore : Bool} {y z : Fin n → F} (hy : ∀ k ∈ leftOut a b ignore, y k = 0)
    (hz' : ∀ k ∈ leftOut a b ignore, z k = 0)
    (h : activePart a b ignore y = activePart a b ignore z) : y = z := by
  obtain ⟨-, htogether, hret⟩ := Arranged.start_spec a b ignore
  funext k
  obtain ⟨j, rfl⟩ := (Arranged.start a b ignore).unknowns.surjective k
  by_cases hj : j.val < (Arranged.start a b ignore).active
  · exact congrFun h ⟨j, hj⟩
  · have hk : (Arranged.start a b ignore).unknowns j ∈ leftOut a b ignore := by
      rw [mem_leftOut_iff hz, htogether, hret]
      exact not_lt.mp hj
    rw [hy _ hk, hz' _ hk]

/-- The answer of a run that ends in `t`: zero for the left-out variables, the free terms of the
block for the others. -/
theorem scatter_spec (hz : ∀ x : F, isZero x = true ↔ x = 0) {a : Table F n n} {b : Vector F n}
    {ignore : Bool} {t : Arranged F n} (hact : t.active = (Arranged.start a b ignore).active)
    (hunk : t.unknowns = (Arranged.start a b ignore).unknowns) :
    (∀ k ∈ leftOut a b ignore, t.scatter.get k = 0) ∧
      activePart a b ignore t.scatter.get =
        t.blockTerms (Arranged.start a b ignore).active_le := by
  obtain ⟨-, htogether, hret⟩ := Arranged.start_spec a b ignore
  have hget : ∀ j, t.scatter.get ((Arranged.start a b ignore).unknowns j) =
      if j.val < (Arranged.start a b ignore).active then t.term j else 0 := by
    intro j
    rw [← hunk, ← hact]
    exact t.get_scatter j
  constructor
  · intro k hk
    obtain ⟨j, rfl⟩ := (Arranged.start a b ignore).unknowns.surjective k
    rw [mem_leftOut_iff hz, htogether, hret] at hk
    rw [hget, if_neg (not_lt.mpr hk)]
  · funext j
    refine (hget _).trans (if_pos ?_)
    exact j.isLt

/-- The places of the active block number the equations that are not left out. -/
noncomputable def activeIndex (hz : ∀ x : F, isZero x = true ↔ x = 0) (a : Table F n n)
    (b : Vector F n) (ignore : Bool) :
    Fin (Arranged.start a b ignore).active ≃ ↥(leftOut a b ignore)ᶜ :=
  have hret : ∀ j : Fin n, (Arranged.start a b ignore).equations j ∈ leftOut a b ignore ↔
      (Arranged.start a b ignore).active ≤ j.val := fun j =>
    (mem_leftOut_iff hz a b ignore _).trans ((Arranged.start_spec a b ignore).2.2 j)
  Equiv.ofBijective
    (fun i => ⟨(Arranged.start a b ignore).equations (Fin.castLE (Arranged.start a b ignore).active_le i),
      fun h => absurd i.isLt (not_lt.mpr ((hret _).mp h))⟩)
    ⟨fun i j hij => Fin.castLE_injective _ (Equiv.injective _ (congrArg Subtype.val hij)),
      fun k => ⟨⟨(Arranged.start a b ignore).equations.symm k, by
        by_contra hlt
        refine k.2 ?_
        have hk := (hret ((Arranged.start a b ignore).equations.symm k)).mpr (not_lt.mp hlt)
        rwa [Equiv.apply_symm_apply] at hk⟩,
        Subtype.ext (Equiv.apply_symm_apply _ _)⟩⟩

open Classical in
/-- The active block has the determinant of the submatrix on the equations that are not left out. -/
theorem det_block (hz : ∀ x : F, isZero x = true ↔ x = 0) (a : Table F n n) (b : Vector F n)
    (ignore : Bool) :
    (activeBlock a b ignore).det =
      ((matrixOf a).submatrix (fun k : ↥(leftOut a b ignore)ᶜ => k.val)
        fun k : ↥(leftOut a b ignore)ᶜ => k.val).det := by
  obtain ⟨harr, htogether, -⟩ := Arranged.start_spec a b ignore
  rw [← det_submatrix_equiv_self (activeIndex hz a b ignore)]
  congr 1
  ext i j
  show (Arranged.start a b ignore).entry _ _ = (a.get _).get _
  rw [harr.entry, htogether]
  rfl

/-- The tableau shows the active system as the plain elimination has it. -/
theorem answers_activeMatrix (a : Table F n n) (b : Vector F n) (ignore : Bool) (row : ℕ)
    (h : Answers (activeBlock a b ignore) (activeTerms a b ignore) (.error row)) :
    IsLeast { r | DependentUpTo (Tableau.start a b ignore).activeMatrix r } row := by
  change Answers ((Arranged.start a b ignore).block (Arranged.start a b ignore).active_le)
    ((Arranged.start a b ignore).blockTerms (Arranged.start a b ignore).active_le) (.error row) at h
  have hshows := Shows.start a b ignore
  generalize Tableau.start a b ignore = t at hshows ⊢
  generalize Arranged.start a b ignore = s at hshows h
  obtain ⟨c, b', e, u, act, hact⟩ := s
  obtain rfl : t.active = act := hshows.active
  have hblock : t.activeMatrix = Arranged.block ⟨c, b', e, u, t.active, hact⟩ t.active_le := by
    ext i j
    exact hshows.entry _ _
  rw [hblock]
  exact h

/-- What the plain elimination answers, on the caller's system. -/
theorem moving_exact {mag : F → L} (hmag : IsMagnitude mag) (a : Table F n n) (b : Vector F n)
    (ignore : Bool) :
    (∀ x, (Arranged.solve a b ignore).1 = .ok x →
        (activeBlock a b ignore).det ≠ 0 ∧
        matrixOf a *ᵥ x.get = b.get ∧ (∀ k ∈ leftOut a b ignore, x.get k = 0) ∧
        ∀ y, matrixOf a *ᵥ y = b.get → (∀ k ∈ leftOut a b ignore, y k = 0) → y = x.get) ∧
      ∀ row, (Arranged.solve a b ignore).1 = .error row →
        Answers (activeBlock a b ignore) (activeTerms a b ignore) (.error row) := by
  have hsolves := mulVec_eq_iff_active hmag.isZero_iff a b ignore
  obtain ⟨hok, herror⟩ := (Arranged.start a b ignore).eliminate_answers hmag
  unfold Arranged.solve
  cases he : (Arranged.start a b ignore).eliminate with
  | error e =>
    refine ⟨fun x hx => (by cases hx), fun row hrow => ?_⟩
    cases hrow
    exact herror e he
  | ok s =>
    refine ⟨fun x hx => ?_, fun row hrow => (by cases hrow)⟩
    cases hx
    obtain ⟨hact, hunk, hdet, hx⟩ := hok s he
    obtain ⟨hzero, hactive⟩ := scatter_spec hmag.isZero_iff hact hunk
    rw [← hactive] at hx
    refine ⟨hdet, (hsolves _ hzero).mpr hx, hzero, fun y hAy hy => ?_⟩
    refine eq_of_activePart_eq hmag.isZero_iff hy hzero ?_
    exact mulVec_injective_of_det_ne_zero hdet (((hsolves y hy).mp hAy).trans hx.symm)

open Classical in
/-- Over a field with a magnitude that is minimal exactly at zero, the numeric engine succeeds
exactly on the systems whose active part is nonsingular; its answer is then the one solution with the
left-out variables at zero, in the caller's order; otherwise it names the first column of the active
system that depends on the columns before it. -/
theorem solve_exact {mag : F → L} (hmag : IsMagnitude mag) (a : Table F n n) (b : Vector F n)
    (ignore : Bool) :
    ((∃ out, (solve ⟨n, n, a⟩ b.toArray ignore).outcome = .ok out) ↔
        ((matrixOf a).submatrix (fun k : ↥(leftOut a b ignore)ᶜ => k.val)
          fun k : ↥(leftOut a b ignore)ᶜ => k.val).det ≠ 0) ∧
      (∀ out, (solve ⟨n, n, a⟩ b.toArray ignore).outcome = .ok out →
        ∃ x : Vector F n, out.1 = x.toArray ∧
          matrixOf a *ᵥ x.get = b.get ∧ (∀ k ∈ leftOut a b ignore, x.get k = 0) ∧
          ∀ y, matrixOf a *ᵥ y = b.get → (∀ k ∈ leftOut a b ignore, y k = 0) → y = x.get) ∧
      ∀ f, (solve ⟨n, n, a⟩ b.toArray ignore).outcome = .error f →
        ∃ row, f = .singular row ∧
          IsLeast { r | DependentUpTo (Tableau.start a b ignore).activeMatrix r } row := by
  obtain ⟨hok, herror⟩ := moving_exact hmag a b ignore
  rw [← det_block hmag.isZero_iff, solve_outcome]
  cases h : (Arranged.solve a b ignore).1 with
  | error row =>
    have hanswer := herror row h
    refine ⟨⟨fun ⟨out, ho⟩ => (by cases ho), fun hdet => ?_⟩, fun out ho => (by cases ho), ?_⟩
    · exact absurd (det_eq_zero_of_dependentUpTo hanswer.1) hdet
    · intro f hf
      cases hf
      exact ⟨row, rfl, answers_activeMatrix a b ignore row hanswer⟩
  | ok x =>
    obtain ⟨hdet, hx⟩ := hok x h
    refine ⟨⟨fun _ => hdet, fun _ => ⟨_, rfl⟩⟩, ?_, fun f hf => (by cases hf)⟩
    intro out ho
    cases ho
    exact ⟨x, rfl, hx⟩

/-- Three equations of which the second says nothing: without it the first pivot stands in the last
row. -/
theorem solve_exact_rational :
    (solve ⟨3, 3, #v[#v[0, 0, 2], #v[0, 0, 0], #v[3, 0, 1]]⟩ #[(4 : ℚ), 0, 5] true).outcome =
        .ok (#[1, 0, 2], ⟨3, 3, #v[#v[0, 0, 1], #v[0, 0, 0], #v[1, 0, 1 / 3]]⟩) ∧
      ∀ y, matrixOf #v[#v[(0 : ℚ), 0, 2], #v[0, 0, 0], #v[3, 0, 1]] *ᵥ y = #v[4, 0, 5].get →
        (∀ k ∈ leftOut #v[#v[(0 : ℚ), 0, 2], #v[0, 0, 0], #v[3, 0, 1]] #v[4, 0, 5] true, y k = 0) →
          y = #v[1, 0, 2].get := by
  have hrun : (solve ⟨3, 3, #v[#v[0, 0, 2], #v[0, 0, 0], #v[3, 0, 1]]⟩ #[(4 : ℚ), 0, 5]
      true).outcome = .ok (#[1, 0, 2], ⟨3, 3, #v[#v[0, 0, 1], #v[0, 0, 0], #v[1, 0, 1 / 3]]⟩) := by
    cbv
  obtain ⟨x, hx, -, -, hunique⟩ := (solve_exact isMagnitude_abs
    #v[#v[0, 0, 2], #v[0, 0, 0], #v[3, 0, 1]] #v[4, 0, 5] true).2.1 _ hrun
  obtain rfl : #v[1, 0, 2] = x := Vector.toArray_inj.mp hx
  exact ⟨hrun, hunique⟩

end Pivotal.Elimination
