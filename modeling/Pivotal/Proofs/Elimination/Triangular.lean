import Pivotal.Proofs.Elimination.Agreement

/-!
# The buffer that a run leaves

A run that succeeds leaves its caller more than the solution.  Above the diagonal the buffer holds the
reduced matrix, below it the multipliers that cleared it, carried along by every later exchange of
rows; only the pivots are divided out.  Together they give back the system (`Triangular`):

    A i j = ∑ k < min i j, M i k * M k j + (p i * M i j if i ≤ j, else M i j)

The numeric engine never moves a row, so its buffer is to be read through the orders of the run, and
so is the caller's table (`through`); behind the active block the row order is that of the start.
-/

namespace Pivotal.Elimination

open Matrix

variable {F : Type*} [Field F] {n m : ℕ}

/-- The buffer `M` factors `A` with the pivots `p`: multipliers below its unit diagonal, the reduced
matrix above. -/
structure Triangular (A M : Matrix (Fin m) (Fin m) F) (p : Fin m → F) : Prop where
  pivot : ∀ i, p i ≠ 0
  unit : ∀ i, M i i = 1
  entry : ∀ i j, A i j =
    ∑ k ∈ Finset.Iio (min i j), M i k * M k j + if i ≤ j then p i * M i j else M i j

section Factors

variable {A M : Matrix (Fin m) (Fin m) F} {p : Fin m → F}

/-- Left of the diagonal stand the multipliers, right of it nothing. -/
theorem lower_apply_of_lt {i k : Fin m} (hk : k < i) : lower m p M i k = M i k := by
  simp only [lower, of_apply, if_pos k.isLt, if_pos hk]

theorem lower_apply_self (i : Fin m) : lower m p M i i = p i := by
  simp only [lower, of_apply, if_pos i.isLt, lt_irrefl, if_false, if_true]

theorem lower_apply_of_gt {i k : Fin m} (hk : i < k) : lower m p M i k = 0 := by
  simp only [lower, of_apply, if_pos k.isLt, if_neg hk.not_gt, if_neg hk.ne']

theorem upper_apply_of_le {k j : Fin m} (hk : k ≤ j) : upper m M k j = M k j := by
  simp only [upper, of_apply, j.isLt, true_and, if_neg hk.not_gt]

theorem upper_apply_of_gt {k j : Fin m} (hk : j < k) : upper m M k j = 0 := by
  simp only [upper, of_apply, j.isLt, true_and, if_pos hk]

/-- After the last step the product of the factors ends at the nearer of the two diagonals. -/
theorem Factored.triangular {d t : Fin m → F} (h : Factored A d m p M t) : Triangular A M p := by
  refine ⟨fun i => h.pivot i i.isLt, fun i => h.unit i i.isLt, fun i j => ?_⟩
  have hvanish : ∀ k ∈ Finset.univ, k ∉ Finset.Iic (min i j) →
      lower m p M i k * upper m M k j = 0 := by
    intro k _ hk
    have hlt : i < k ∨ j < k := min_lt_iff.mp (not_le.mp fun hle => hk (Finset.mem_Iic.mpr hle))
    rcases hlt with hlt | hlt
    · rw [lower_apply_of_gt hlt, zero_mul]
    · rw [upper_apply_of_gt hlt, mul_zero]
  have hbefore : ∀ k ∈ Finset.Iio (min i j),
      lower m p M i k * upper m M k j = M i k * M k j := by
    intro k hk
    obtain ⟨hi, hj⟩ := lt_min_iff.mp (Finset.mem_Iio.mp hk)
    rw [lower_apply_of_lt hi, upper_apply_of_le hj.le]
  have hlast : lower m p M i (min i j) * upper m M (min i j) j =
      if i ≤ j then p i * M i j else M i j := by
    by_cases hij : i ≤ j
    · rw [if_pos hij, min_eq_left hij, lower_apply_self, upper_apply_of_le hij]
    · have hji : j < i := not_le.mp hij
      rw [if_neg hij, min_eq_right hji.le, lower_apply_of_lt hji, upper_apply_of_le le_rfl,
        h.unit j j.isLt, mul_one]
  rw [h.matrix, mul_apply, ← Finset.sum_subset (Finset.subset_univ _) hvanish,
    ← Finset.Iio_insert, Finset.sum_insert Finset.notMem_Iio_self, hlast,
    Finset.sum_congr rfl hbefore, add_comm]

end Factors

/-! ## The numeric engine -/

/-- The leading block of a table, seen through a row order and a column order. -/
def through (a : Table F n n) (rows cols : Fin n → Fin n) (h : m ≤ n) :
    Matrix (Fin m) (Fin m) F :=
  of fun i j => (a.get (rows (Fin.castLE h i))).get (cols (Fin.castLE h j))

namespace Arranged

/-- After `k` steps the block factors the caller's system as the arrangement shows it. -/
structure FactoredThrough (a : Table F n n) (b : Vector F n) (h : m ≤ n) (k : ℕ)
    (s : Arranged F n) : Prop where
  active : s.active = m
  factored : ∃ p, Factored (through a s.equations s.unknowns h)
    (fun i => b.get (s.equations (Fin.castLE h i))) k p (s.block h) (s.blockTerms h)

variable {a : Table F n n} {b : Vector F n}

theorem Arranges.factoredThrough {s : Arranged F n} (hs : Arranges a b s) {h : m ≤ n}
    (hm : s.active = m) : FactoredThrough a b h 0 s := by
  have hblock : through a s.equations s.unknowns h = s.block h := by
    ext i j
    exact (hs.entry _ _).symm
  have hterms : (fun i => b.get (s.equations (Fin.castLE h i))) = s.blockTerms h :=
    funext fun i => (hs.term _).symm
  refine ⟨hm, 0, ?_⟩
  rw [hblock, hterms]
  exact Factored.start _ _

variable [Pivoting F]

/-- A step exchanges two equations of the arrangement along with their lines. -/
theorem FactoredThrough.clear (hz : ∀ x : F, isZero x = true ↔ x = 0) {s : Arranged F n}
    {h : m ≤ n} {i : Fin m} (hs : FactoredThrough a b h i s) (best : Fin m) (hbest : i ≤ best)
    (hpivot : s.entry (Fin.castLE h best) (Fin.castLE h i) ≠ 0) :
    FactoredThrough a b h (i + 1) (((s.swapRows (Fin.castLE h i) (Fin.castLE h best)).normalize
      (Fin.castLE h i)).reduceBelow (Fin.castLE h i)) := by
  obtain ⟨hactive, p, hf⟩ := hs
  have hstill := ((s.swapRows (Fin.castLE h i) (Fin.castLE h best)).clear_spec (Fin.castLE h i)).1
  obtain ⟨p', hf'⟩ := hf.exchange_clear hbest hpivot
    (s.line_swapRows (Fin.castLE h i) (Fin.castLE h best))
    (line_clear hz (s.swapRows (Fin.castLE h i) (Fin.castLE h best)) h hactive i)
  -- The exchange moves the equations of the arrangement as it moves the lines.
  have hequations : ∀ r : Fin m,
      (s.swapRows (Fin.castLE h i) (Fin.castLE h best)).equations (Fin.castLE h r) =
        s.equations (Fin.castLE h (Equiv.swap i best r)) := by
    intro r
    show s.equations (Equiv.swap (Fin.castLE h i) (Fin.castLE h best) (Fin.castLE h r)) = _
    rw [(Fin.castLE_injective h).map_swap]
  have hblock : through a (s.swapRows (Fin.castLE h i) (Fin.castLE h best)).equations s.unknowns h =
      (through a s.equations s.unknowns h).submatrix (Equiv.swap i best) id := by
    ext r c
    simp only [through, of_apply, submatrix_apply, id_eq, hequations]
  have hterms : (fun r => b.get ((s.swapRows (Fin.castLE h i) (Fin.castLE h best)).equations
      (Fin.castLE h r))) =
        (fun r => b.get (s.equations (Fin.castLE h r))) ∘ Equiv.swap i best := by
    funext r
    exact congrArg b.get (hequations r)
  refine ⟨hstill.active.trans hactive, p', ?_⟩
  rw [hstill.equations, hstill.unknowns, hterms]
  exact hblock ▸ hf'

theorem FactoredThrough.eliminate (hz : ∀ x : F, isZero x = true ↔ x = 0) {s₀ s : Arranged F n}
    {h : m ≤ n} (h₀ : FactoredThrough a b h 0 s₀) (hrun : s₀.eliminate = .ok s) :
    FactoredThrough a b h m s := by
  obtain rfl := h₀.active
  rw [eliminate_eq] at hrun
  refine (foldlM_finRange (FactoredThrough a b h) (fun _ => True) ?_ (fun _ _ _ _ _ => trivial) s₀
    h₀).1 s hrun
  intro i s s' hs hstep
  obtain ⟨best, hbest, hpivot, rfl⟩ := step_ok_block hz h hs.active hstep
  exact hs.clear hz best hbest hpivot

omit [Pivoting F] in
theorem coefficients_dischargeAbove (s : Arranged F n) (i : Fin n) :
    (s.dischargeAbove i).coefficients = s.coefficients := by
  unfold dischargeAbove
  exact List.foldlRecOn (motive := fun s' : Arranged F n => s'.coefficients = s.coefficients) _ _
    rfl fun _ hs _ _ => hs

omit [Pivoting F] in
theorem coefficients_substituteBack (s : Arranged F n) :
    s.substituteBack.coefficients = s.coefficients := by
  unfold substituteBack
  exact List.foldlRecOn (motive := fun s' : Arranged F n => s'.coefficients = s.coefficients) _ _
    rfl fun s' hs i _ => (s'.coefficients_dischargeAbove i).trans hs

omit [Field F] [Pivoting F] in
/-- The restored table, looked at through the arrangement, is the moved one. -/
theorem through_restored (s : Arranged F n) (h : m ≤ n) :
    through s.restored s.equations s.unknowns h = s.block h := by
  ext i j
  show (s.restored.get _).get _ = s.entry _ _
  rw [get_restored, Equiv.symm_apply_apply, Equiv.symm_apply_apply]

omit [Pivoting F] in
theorem through_restored_substituteBack (s : Arranged F n) (h : m ≤ n) :
    through s.substituteBack.restored s.equations s.unknowns h = s.block h := by
  have hstill := (s.block_substituteBack s.active_le rfl).1
  rw [← hstill.equations, ← hstill.unknowns, through_restored]
  ext i j
  show (s.substituteBack.coefficients.get _).get _ = (s.coefficients.get _).get _
  rw [coefficients_substituteBack]

end Arranged

variable [Pivoting F]

theorem solve_triangular (hz : ∀ x : F, isZero x = true ↔ x = 0) (a : Table F n n)
    (b : Vector F n) (ignore : Bool) {out : Array F × Grid F}
    (hout : (solve ⟨n, n, a⟩ b.toArray ignore).outcome = .ok out) :
    ∃ (M : Table F n n) (rows : Equiv.Perm (Fin n)) (p : Fin (Tableau.start a b ignore).active → F),
      out.2 = ⟨n, n, M⟩ ∧
      (∀ k : Fin n, (Tableau.start a b ignore).active ≤ k.val →
        rows k = (Tableau.start a b ignore).rowAt k) ∧
      Triangular
        (through a rows (Tableau.start a b ignore).colAt (Tableau.start a b ignore).active_le)
        (through M rows (Tableau.start a b ignore).colAt (Tableau.start a b ignore).active_le)
        p := by
  obtain ⟨harr, -, -⟩ := Arranged.start_spec a b ignore
  have hshows := Shows.start a b ignore
  rw [solve_outcome] at hout
  unfold Arranged.solve at hout
  generalize Tableau.start a b ignore = t at hshows ⊢
  generalize Arranged.start a b ignore = s₀ at harr hshows hout
  cases hrun : s₀.eliminate with
  | error e =>
    rw [hrun] at hout
    cases hout
  | ok s =>
    rw [hrun] at hout
    cases hout
    have huntouched := (Arranged.Untouched.refl harr).eliminate.1 s hrun
    have hcols : t.colAt = s.unknowns := by
      rw [huntouched.unknowns]
      exact funext hshows.colAt
    obtain ⟨-, p, hf⟩ :=
      (harr.factoredThrough (h := t.active_le) hshows.active.symm).eliminate hz hrun
    refine ⟨s.substituteBack.restored, s.equations, p, rfl, fun k hk => ?_, ?_⟩
    · rw [hshows.active] at hk
      rw [huntouched.equations k hk]
      exact (hshows.rowAt k).symm
    · rw [hcols, s.through_restored_substituteBack]
      exact hf.triangular

/-! ## The symbolic engine -/

omit [Pivoting F] in
theorem FormulaTableau.coefficients_substituteBack (t : FormulaTableau n) :
    t.substituteBack.coefficients = t.coefficients := by
  unfold substituteBack
  refine List.foldlRecOn (motive := fun t' : FormulaTableau n => t'.coefficients = t.coefficients)
    _ _ rfl fun t' ht i _ => ?_
  unfold dischargeAbove
  exact List.foldlRecOn (motive := fun t'' : FormulaTableau n => t''.coefficients = t.coefficients)
    _ _ ht fun _ ht' _ _ => ht'

theorem solveSymbolic_triangular (hz : ∀ x : F, isZero x = true ↔ x = 0) (v : ℕ → F)
    (a : Table Expr n n) (b : Vector Expr n) (lists : ℕ)
    (hpool : Expr.Pool lists (occurring a b)) {out : Formulas}
    (hout : (solveSymbolic v ⟨n, n, a⟩ b.toArray lists).outcome = .ok out) :
    ∃ (M : Table F n n) (rows : Equiv.Perm (Fin n)) (p : Fin n → F),
      Expr.gridValues v out.coefficients = ⟨n, n, M⟩ ∧
      Triangular ((matrixAt v a).submatrix rows id) (matrixOf M) p := by
  have hshared := shared_of_pool hpool
  have hpivots := FormulaTableau.pivots_spec hz v hshared (List.finRange n)
  rw [solveSymbolic_square] at hout
  cases hrun : (FormulaTableau.mk a b lists []).eliminate v with
  | error e =>
    rw [hrun] at hout
    cases hout
  | ok t =>
    rw [hrun] at hout
    cases hout
    obtain ⟨⟨S, hwithin⟩, -, rows, p, hf⟩ := (FormulaTableau.eliminate_follows hz v v
      (FormulaTableau.Follows.start hz hshared fun e he => (hpivots e he).1)).1 t hrun
    have hvalues := hwithin.pool.gridValues_eq_map (g := ⟨n, n, t.coefficients⟩)
      hwithin.coefficient v
    refine ⟨t.coefficients.map fun row => row.map (Expr.eval v), rows, p, ?_, ?_⟩
    · show Expr.gridValues v ⟨n, n, t.substituteBack.coefficients⟩ = _
      rw [t.coefficients_substituteBack]
      exact hvalues
    · have hmatrix : matrixOf (t.coefficients.map fun row : Vector Expr n =>
          row.map (Expr.eval v)) = t.matrix v := by
        ext i j
        show ((t.coefficients.map fun row : Vector Expr n => row.map (Expr.eval v)).get i).get j = _
        rw [Vector.get_map, Vector.get_map]
        rfl
      rw [hmatrix, matrixAt_eq hshared]
      exact hf.triangular

/-! ## Both engines -/

/-- Over a field, the coefficients that a successful run leaves are a triangular factorization of the
system it was given.  The numeric engine's are read through its final row order, which behind the
active block is that of the start, and through the column order of the start, which without retired
equations is the caller's; those of the symbolic engine are evaluated as they stand. -/
theorem buffer_factors (hz : ∀ x : F, isZero x = true ↔ x = 0) :
    (∀ (a : Table F n n) (b : Vector F n) (ignore : Bool) (out : Array F × Grid F),
      (solve ⟨n, n, a⟩ b.toArray ignore).outcome = .ok out →
        (ignore = false → (Tableau.start a b ignore).active = n ∧
          ∀ j, (Tableau.start a b ignore).colAt j = j) ∧
        ∃ (M : Table F n n) (rows : Equiv.Perm (Fin n))
            (p : Fin (Tableau.start a b ignore).active → F),
          out.2 = ⟨n, n, M⟩ ∧
          (∀ k : Fin n, (Tableau.start a b ignore).active ≤ k.val →
            rows k = (Tableau.start a b ignore).rowAt k) ∧
          Triangular
            (through a rows (Tableau.start a b ignore).colAt (Tableau.start a b ignore).active_le)
            (through M rows (Tableau.start a b ignore).colAt (Tableau.start a b ignore).active_le)
            p) ∧
      ∀ (v : ℕ → F) (a : Table Expr n n) (b : Vector Expr n) (lists : ℕ),
        Expr.Pool lists (occurring a b) → ∀ out,
        (solveSymbolic v ⟨n, n, a⟩ b.toArray lists).outcome = .ok out →
        ∃ (M : Table F n n) (rows : Equiv.Perm (Fin n)) (p : Fin n → F),
          Expr.gridValues v out.coefficients = ⟨n, n, M⟩ ∧
          Triangular ((matrixAt v a).submatrix rows id) (matrixOf M) p := by
  refine ⟨fun a b ignore out hout => ⟨?_, solve_triangular hz a b ignore hout⟩,
    fun v a b lists hpool out hout => solveSymbolic_triangular hz v a b lists hpool hout⟩
  rintro rfl
  exact ⟨rfl, (Shows.ofSystem a b).colAt⟩

/-- The second equation says nothing, and the first pivot stands in the last row. -/
def gapSystem : Table ℚ 3 3 := #v[#v[0, 0, 2], #v[0, 0, 0], #v[3, 0, 1]]

def gapTerms : Vector ℚ 3 := #v[4, 0, 5]

/-- Cells of a system of two constant equations whose first entry is zero. -/
def zeroFirst (cell : ℕ) : ℚ := #[0, 1, 1, 1, 1, 2].getD cell 0

/-- Both engines exchange rows, and the numeric one retires an equation. -/
theorem buffer_factors_exchanged :
    (∃ out M, (solve ⟨3, 3, gapSystem⟩ gapTerms.toArray true).outcome = .ok out ∧
      out.2 = ⟨3, 3, M⟩ ∧
      ∃ (rows : Equiv.Perm (Fin 3)) (p : Fin (Tableau.start gapSystem gapTerms true).active → ℚ),
        Triangular
          (through gapSystem rows (Tableau.start gapSystem gapTerms true).colAt
            (Tableau.start gapSystem gapTerms true).active_le)
          (through M rows (Tableau.start gapSystem gapTerms true).colAt
            (Tableau.start gapSystem gapTerms true).active_le) p) ∧
      ∃ out M, (solveSymbolic zeroFirst ⟨2, 2, leafTable 2⟩ (leafTerms 2).toArray 0).outcome =
          .ok out ∧
        Expr.gridValues zeroFirst out.coefficients = ⟨2, 2, M⟩ ∧
        ∃ (rows : Equiv.Perm (Fin 2)) (p : Fin 2 → ℚ),
          Triangular ((matrixAt zeroFirst (leafTable 2)).submatrix rows id) (matrixOf M) p := by
  have hnumeric : (solve ⟨3, 3, gapSystem⟩ gapTerms.toArray true).outcome =
      .ok (#[1, 0, 2], ⟨3, 3, #v[#v[0, 0, 1], #v[0, 0, 0], #v[1, 0, 1 / 3]]⟩) := by cbv
  have hok : (solveSymbolic zeroFirst ⟨2, 2, leafTable 2⟩ (leafTerms 2).toArray
      0).outcome.isOk = true := by cbv
  constructor
  · obtain ⟨M, rows, p, hM, -, hfactors⟩ :=
      ((buffer_factors isMagnitude_abs.isZero_iff).1 gapSystem gapTerms true _ hnumeric).2
    exact ⟨_, M, hnumeric, hM, rows, p, hfactors⟩
  · cases hout : (solveSymbolic zeroFirst ⟨2, 2, leafTable 2⟩ (leafTerms 2).toArray 0).outcome with
    | error f =>
      rw [hout] at hok
      cases hok
    | ok out =>
      obtain ⟨M, rows, p, hM, hfactors⟩ := (buffer_factors isMagnitude_abs.isZero_iff).2 zeroFirst
        (leafTable 2) (leafTerms 2) 0 (Expr.Pool.leaves 0 occurring_leaves) out hout
      exact ⟨out, M, rfl, hM, rows, p, hfactors⟩

end Pivotal.Elimination
