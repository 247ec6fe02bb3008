import Pivotal.Proofs.Elimination.Formulas
import Pivotal.Proofs.Elimination.InPlace

/-!
# Formulas that outlive the values they were found at

The symbolic engine looks at the cells only to choose its pivots.  The formulas it leaves are those
of an elimination with these pivots, whatever the cells hold later: at any assignment of values under
which none of the chosen pivots vanishes they solve the system as it then reads
(`solveSymbolic_follows`).  At the assignment of the run itself no chosen pivot vanishes, and a run
that breaks off has found the first dependent column (`symbolic_answers`).
-/

namespace Pivotal.Elimination

open Matrix

variable {F : Type*} [Field F] {n : ℕ}

namespace FormulaTableau

/-- The coefficients under a valuation. -/
abbrev matrix (v : ℕ → F) (t : FormulaTableau n) : Matrix (Fin n) (Fin n) F :=
  blockOf (t.line v) le_rfl

/-- The free terms under a valuation. -/
abbrev vector (v : ℕ → F) (t : FormulaTableau n) : Fin n → F := blockTermsOf (t.line v) le_rfl

/-! ## The choice of pivots -/

/-- The tableau with row `j` brought to place `i`. -/
def pivoted (t : FormulaTableau n) (i j : Fin n) : FormulaTableau n :=
  if j = i then t else (t.exchange i j).report (.rowsExchanged i j)

theorem line_pivoted (v : ℕ → F) (t : FormulaTableau n) (i j r : Fin n) :
    (t.pivoted i j).line v r = t.line v (Equiv.swap i j r) := by
  unfold pivoted
  by_cases hj : j = i
  · rw [if_pos hj, hj, Equiv.swap_self]
    rfl
  · rw [if_neg hj]
    exact line_exchange v t i j r

theorem diagonal_pivoted (t : FormulaTableau n) (i j : Fin n) :
    ((t.pivoted i j).coefficients.get i).get i = (t.coefficients.get j).get i := by
  unfold pivoted
  by_cases hj : j = i
  · rw [if_pos hj, hj]
  · rw [if_neg hj]
    show ((t.exchange i j).coefficients.get i).get i = _
    simp only [exchange, get_swap, Equiv.swap_apply_left]

theorem Shared.pivoted {t : FormulaTableau n} (h : t.Shared) (i j : Fin n) :
    (t.pivoted i j).Shared := by
  unfold FormulaTableau.pivoted
  by_cases hj : j = i
  · rw [if_pos hj]
    exact h
  · rw [if_neg hj]
    exact (h.exchange i j).report _

/-- The pivot expressions of the listed steps, each as it stands on the diagonal before its row is
divided by it. -/
def pivots {α : Type*} [Zero α] [One α] [Add α] [Mul α] [Neg α] [Inv α] [Pivoting α] (v : ℕ → α)
    (t : FormulaTableau n) : List (Fin n) → List Expr
  | [] => []
  | i :: is =>
    match t.selectPivot v i with
    | .error _ => []
    | .ok t => (t.coefficients.get i).get i :: pivots v ((t.normalize i).reduceBelow i) is

section Scalars

variable {α : Type*} [Zero α] [One α] [Add α] [Mul α] [Neg α] [Inv α] [Pivoting α]

theorem selectPivot_cases (v : ℕ → α) (t : FormulaTableau n) (i : Fin n) :
    (t.selectPivot v i = .error ⟨i, t.report (.noPivotForRow i)⟩ ∧
        ∀ j, i ≤ j → isZero (((t.coefficients.get j).get i).value v) = true) ∨
      ∃ j, i ≤ j ∧ isZero (((t.coefficients.get j).get i).value v) = false ∧
        t.selectPivot v i = .ok (t.pivoted i j) := by
  unfold selectPivot
  cases hrow : t.pivotRow? v i with
  | none =>
    refine .inl ⟨rfl, fun j hj => ?_⟩
    have hnone := List.find?_eq_none.mp hrow j (mem_onward.mpr hj)
    simpa using hnone
  | some j =>
    refine .inr ⟨j, mem_onward.mp (List.mem_of_find?_eq_some hrow), ?_, rfl⟩
    simpa using List.find?_some hrow

/-- A step that goes through brings a row with a non-zero entry to place `i` and clears column
`i`. -/
theorem step_ok {v : ℕ → α} {t t' : FormulaTableau n} {i : Fin n} (h : t.step v i = .ok t') :
    ∃ j, i ≤ j ∧ t.selectPivot v i = .ok (t.pivoted i j) ∧
      t' = ((t.pivoted i j).normalize i).reduceBelow i := by
  unfold step at h
  rcases t.selectPivot_cases v i with ⟨herror, -⟩ | ⟨j, hij, -, hok⟩
  · rw [herror] at h
    cases h
  · rw [hok] at h
    exact ⟨j, hij, hok, (Except.ok.inj h).symm⟩

/-- A step that breaks off has found only zeros from place `i` on. -/
theorem step_error {v : ℕ → α} {t : FormulaTableau n} {i : Fin n} {e : Breakdown n}
    (h : t.step v i = .error e) :
    e.row = i ∧ ∀ j, i ≤ j → isZero (((t.coefficients.get j).get i).value v) = true := by
  unfold step at h
  rcases t.selectPivot_cases v i with ⟨herror, hcolumn⟩ | ⟨j, -, -, hok⟩
  · rw [herror] at h
    cases h
    exact ⟨rfl, hcolumn⟩
  · rw [hok] at h
    cases h

theorem pivots_cons {v : ℕ → α} {t : FormulaTableau n} {i j : Fin n}
    (hselect : t.selectPivot v i = .ok (t.pivoted i j)) (is : List (Fin n)) :
    pivots v t (i :: is) = (t.coefficients.get j).get i ::
      pivots v (((t.pivoted i j).normalize i).reduceBelow i) is := by
  rw [pivots, hselect, ← diagonal_pivoted]

end Scalars

variable [Pivoting F]

/-- Every chosen pivot is non-zero at the values it was chosen at, and its cached value is its value
at all others too. -/
theorem pivots_spec (hz : ∀ x : F, isZero x = true ↔ x = 0) (v : ℕ → F) {t : FormulaTableau n}
    (ht : t.Shared) (is : List (Fin n)) :
    ∀ e ∈ pivots v t is, e.value v ≠ 0 ∧ ∀ v' : ℕ → F, e.value v' = e.eval v' := by
  induction is generalizing t with
  | nil => exact fun e he => absurd he List.not_mem_nil
  | cons i is ih =>
    rcases t.selectPivot_cases v i with ⟨herror, -⟩ | ⟨j, -, hpivot, hok⟩
    · rw [pivots, herror]
      exact fun e he => absurd he List.not_mem_nil
    · rw [pivots_cons hok]
      intro e he
      rcases List.mem_cons.mp he with rfl | he
      · refine ⟨fun h => ?_, fun v' => ht.value_coefficient v' j i⟩
        rw [(hz _).mpr h] at hpivot
        cases hpivot
      · exact ih ((ht.pivoted i j).clear i) e he

/-! ## A run at other values -/

/-- The tableau of a run at `v` as it reads at `v'`: reached in `k` steps from the first one, with no
vanishing pivot to come. -/
structure Follows (v v' : ℕ → F) (t₀ : FormulaTableau n) (k : ℕ) (t : FormulaTableau n) : Prop where
  shared : t.Shared
  pivots : ∀ e ∈ pivots v t ((List.finRange n).drop k), e.eval v' ≠ 0
  reached : Reached (t₀.matrix v') (t₀.vector v') k (t.matrix v') (t.vector v')

theorem Follows.start (hz : ∀ x : F, isZero x = true ↔ x = 0) {v v' : ℕ → F}
    {t₀ : FormulaTableau n} (h₀ : t₀.Shared)
    (hv' : ∀ e ∈ FormulaTableau.pivots v t₀ (List.finRange n), e.value v' ≠ 0) :
    Follows v v' t₀ 0 t₀ := by
  refine ⟨h₀, fun e he => ?_, Reached.start _ _⟩
  rw [← (pivots_spec hz v h₀ _ e he).2 v']
  exact hv' e he

theorem Follows.clear {v v' : ℕ → F} {t₀ t : FormulaTableau n} {i j : Fin n}
    (h : Follows v v' t₀ i t) (hij : i ≤ j) (hselect : t.selectPivot v i = .ok (t.pivoted i j)) :
    Follows v v' t₀ (i + 1) (((t.pivoted i j).normalize i).reduceBelow i) := by
  have hpivots := h.pivots
  rw [finRange_drop, pivots_cons hselect] at hpivots
  obtain ⟨hpivot, hrest⟩ := List.forall_mem_cons.mp hpivots
  refine ⟨(h.shared.pivoted i j).clear i, hrest, ?_⟩
  exact h.reached.exchange_clear hij hpivot (line_pivoted v' t i j)
    (line_clear v' (t.pivoted i j) i)

/-- What every step keeps, the elimination keeps; where it breaks off, the column has no pivot at the
values of the run. -/
theorem eliminate_follows (hz : ∀ x : F, isZero x = true ↔ x = 0) (v v' : ℕ → F)
    {t₀ : FormulaTableau n} (h₀ : Follows v v' t₀ 0 t₀) :
    (∀ t, t₀.eliminate v = .ok t → Follows v v' t₀ n t) ∧
      ∀ e, t₀.eliminate v = .error e → v' = v →
        Answers (t₀.matrix v') (t₀.vector v') (.error e.row) := by
  refine foldlM_finRange (Follows v v' t₀) (fun e : Breakdown n => v' = v →
    Answers (t₀.matrix v') (t₀.vector v') (.error e.row)) ?_ ?_ t₀ h₀
  · intro i t t' ht hstep
    obtain ⟨j, hij, hselect, rfl⟩ := step_ok hstep
    exact ht.clear hij hselect
  · rintro i t e ht hstep rfl
    obtain ⟨hrow, hcolumn⟩ := step_error hstep
    rw [hrow]
    refine ht.reached.stuck rfl fun r hr => ?_
    exact (ht.shared.value_coefficient v' r i).symm.trans ((hz _).mp (hcolumn r hr))

omit [Pivoting F] in
theorem vector_substituteBack (v : ℕ → F) (t : FormulaTableau n) :
    t.substituteBack.vector v = backSubstituted (t.matrix v) (t.vector v) :=
  blockTermsOf_substituteBack (line v) dischargeAbove (line_dischargeAbove v) le_rfl t

/-- What a run at `v` answers: with a break, for the system at `v`; with formulas, for the system at
every `v'` that spares the chosen pivots. -/
theorem symbolic_answers (hz : ∀ x : F, isZero x = true ↔ x = 0) (v : ℕ → F)
    {t₀ : FormulaTableau n} (h₀ : t₀.Shared) :
    (∀ t, t₀.eliminate v = .ok t → t.substituteBack.Shared ∧
        ∀ v' : ℕ → F, (∀ e ∈ pivots v t₀ (List.finRange n), e.value v' ≠ 0) →
          Answers (t₀.matrix v') (t₀.vector v') (.ok (t.substituteBack.vector v'))) ∧
      ∀ e, t₀.eliminate v = .error e →
        Answers (t₀.matrix v) (t₀.vector v) (.error e.row) := by
  have hpivots := pivots_spec hz v h₀ (List.finRange n)
  have hnow := eliminate_follows hz v v (Follows.start hz h₀ fun e he => (hpivots e he).1)
  refine ⟨fun t ht => ⟨(hnow.1 t ht).shared.substituteBack, fun v' hv' => ?_⟩,
    fun e he => hnow.2 e he rfl⟩
  rw [vector_substituteBack]
  exact ((eliminate_follows hz v v' (Follows.start hz h₀ hv')).1 t ht).reached.solved

end FormulaTableau

/-! ## Systems of expressions -/

/-- The expressions of a system. -/
def occurring (a : Table Expr n n) (b : Vector Expr n) : Set Expr :=
  { e | (∃ i j, (a.get i).get j = e) ∨ ∃ i, b.get i = e }

theorem shared_of_pool {a : Table Expr n n} {b : Vector Expr n} {lists : ℕ}
    (h : Expr.Pool lists (occurring a b)) : (FormulaTableau.mk a b lists []).Shared :=
  ⟨occurring a b, h, fun i j => .inl ⟨i, j, rfl⟩, fun i => .inr ⟨i, rfl⟩⟩

theorem solveSymbolic_square {α : Type*} [Zero α] [One α] [Add α] [Mul α] [Neg α] [Inv α]
    [Pivoting α] (v : ℕ → α) (a : Table Expr n n) (b : Vector Expr n) (lists : ℕ) :
    (solveSymbolic v ⟨n, n, a⟩ b.toArray lists).outcome =
      (((FormulaTableau.mk a b lists []).eliminate v).mapError fun e => Fault.singular e.row).map
        fun t => ⟨t.substituteBack.terms.toArray, ⟨n, n, t.substituteBack.coefficients⟩,
          t.substituteBack.lists⟩ := by
  rw [solveSymbolic_of_ofGrid v (ofGrid_square a b)]
  unfold solveSquareSymbolic
  cases (FormulaTableau.mk a b lists []).eliminate v with
  | error e => rfl
  | ok t => rfl

/-- The coefficients evaluated at `v`. -/
def matrixAt (v : ℕ → F) (a : Table Expr n n) : Matrix (Fin n) (Fin n) F :=
  of fun i j => ((a.get i).get j).value v

/-- The free terms evaluated at `v`. -/
def termsAt (v : ℕ → F) (b : Vector Expr n) : Fin n → F := fun i => (b.get i).value v

theorem matrixAt_eq {a : Table Expr n n} {b : Vector Expr n} {lists : ℕ}
    (h : (FormulaTableau.mk a b lists []).Shared) (v : ℕ → F) :
    matrixAt v a = (FormulaTableau.mk a b lists []).matrix v := by
  ext i j
  exact h.value_coefficient v i j

theorem termsAt_eq {a : Table Expr n n} {b : Vector Expr n} {lists : ℕ}
    (h : (FormulaTableau.mk a b lists []).Shared) (v : ℕ → F) :
    termsAt v b = (FormulaTableau.mk a b lists []).vector v :=
  funext fun i => h.value_term v i

/-- The pivot expressions that a run at `v` chooses. -/
def chosenPivots {α : Type*} [Zero α] [One α] [Add α] [Mul α] [Neg α] [Inv α] [Pivoting α]
    (v : ℕ → α) (a : Table Expr n n) (b : Vector Expr n) (lists : ℕ) : List Expr :=
  FormulaTableau.pivots v ⟨a, b, lists, []⟩ (List.finRange n)

/-- Evaluated at `v`, the formulas are the one solution of the system evaluated at `v`. -/
def SolvesAt (v : ℕ → F) (a : Table Expr n n) (b : Vector Expr n) (formulas : Array Expr) : Prop :=
  ∃ x : Fin n → F, Expr.values v formulas.toList = List.ofFn x ∧
    matrixAt v a *ᵥ x = termsAt v b ∧ ∀ y, matrixAt v a *ᵥ y = termsAt v b → y = x

/-- A symbolic solution stays the solution when the cells change: wherever none of the pivots chosen
at `v` vanishes, the formulas found at `v` are the one solution of the system as it reads there; and
none of them vanishes at `v`.  Of the expressions handed over only this is asked, which every way of
building them keeps: an identity stands for one list, and the supply is ahead of all identities. -/
theorem solveSymbolic_follows [Pivoting F] (hz : ∀ x : F, isZero x = true ↔ x = 0) (v : ℕ → F)
    (a : Table Expr n n) (b : Vector Expr n) (lists : ℕ)
    (hpool : Expr.Pool lists (occurring a b)) {out : Formulas}
    (hout : (solveSymbolic v ⟨n, n, a⟩ b.toArray lists).outcome = .ok out) :
    (∀ v' : ℕ → F, (∀ e ∈ chosenPivots v a b lists, e.value v' ≠ 0) →
        SolvesAt v' a b out.formulas) ∧
      (∀ e ∈ chosenPivots v a b lists, e.value v ≠ 0) ∧ SolvesAt v a b out.formulas := by
  have hshared := shared_of_pool hpool
  have hnonzero : ∀ e ∈ chosenPivots v a b lists, e.value v ≠ 0 := fun e he =>
    (FormulaTableau.pivots_spec hz v hshared (List.finRange n) e he).1
  have hfollow : ∀ v' : ℕ → F, (∀ e ∈ chosenPivots v a b lists, e.value v' ≠ 0) →
      SolvesAt v' a b out.formulas := by
    intro v' hv'
    rw [solveSymbolic_square] at hout
    cases hrun : (FormulaTableau.mk a b lists []).eliminate v with
    | error e =>
      rw [hrun] at hout
      cases hout
    | ok t =>
      rw [hrun] at hout
      cases hout
      obtain ⟨hshared', hanswers⟩ := (FormulaTableau.symbolic_answers hz v hshared).1 t hrun
      obtain ⟨hdet, hx⟩ := hanswers v' hv'
      rw [SolvesAt, matrixAt_eq hshared, termsAt_eq hshared]
      exact ⟨_, hshared'.values_terms v', hx, fun y hy =>
        mulVec_injective_of_det_ne_zero hdet (hy.trans hx.symm)⟩
  exact ⟨hfollow, hnonzero, hfollow v hnonzero⟩

/-- A sum stands in one corner and its negative, over the same list, in the other. -/
def cornerSystem : Table Expr 2 2 :=
  #v[#v[.node .sum 0 false [.leaf ⟨none, 0⟩, .leaf ⟨none, 1⟩], .leaf ⟨none, 2⟩],
    #v[.leaf ⟨none, 3⟩, .node .sum 0 true [.leaf ⟨none, 0⟩, .leaf ⟨none, 1⟩]]]

def cornerTerms : Vector Expr 2 := #v[.leaf ⟨none, 2⟩, .leaf ⟨none, 1⟩]

def cornerCells (x : ℚ) (cell : ℕ) : ℚ := #[1, x, 2, 3].getD cell 0

/-- With `-1` in cell 1 the first corner is zero and the rows are exchanged; with `1` it is not, and
the formulas of the exchanged system still solve it. -/
theorem solveSymbolic_follows_corner :
    Expr.Pool 1 (occurring cornerSystem cornerTerms) ∧
      (∀ e ∈ chosenPivots (cornerCells (-1)) cornerSystem cornerTerms 1,
        e.value (cornerCells 1) ≠ 0) ∧
      ∃ out, (solveSymbolic (cornerCells (-1)) ⟨2, 2, cornerSystem⟩ cornerTerms.toArray 1).outcome =
          .ok out ∧
        SolvesAt (cornerCells 1) cornerSystem cornerTerms out.formulas := by
  have hpool : Expr.Pool 1 (occurring cornerSystem cornerTerms) := by
    refine ⟨fun _ => (.sum, [.leaf ⟨none, 0⟩, .leaf ⟨none, 1⟩]), ?_⟩
    rintro e (⟨i, j, rfl⟩ | ⟨i, rfl⟩)
    · match i, j with
      | 0, 0 => exact .node Nat.one_pos rfl (by simp [Expr.Stored.leaf])
      | 0, 1 => exact .leaf _
      | 1, 0 => exact .leaf _
      | 1, 1 => exact .node Nat.one_pos rfl (by simp [Expr.Stored.leaf])
    · match i with
      | 0 => exact .leaf _
      | 1 => exact .leaf _
  have hvalues : (chosenPivots (cornerCells (-1)) cornerSystem cornerTerms 1).map
      (Expr.value (cornerCells 1)) = [3, 10 / 3] := by cbv
  have hpivots : ∀ e ∈ chosenPivots (cornerCells (-1)) cornerSystem cornerTerms 1,
      e.value (cornerCells 1) ≠ 0 := by
    intro e he hzero
    have hmem := List.mem_map_of_mem (f := Expr.value (cornerCells 1)) he
    rw [hvalues, hzero] at hmem
    norm_num at hmem
  have hok : (solveSymbolic (cornerCells (-1)) ⟨2, 2, cornerSystem⟩ cornerTerms.toArray
      1).outcome.isOk = true := by cbv
  refine ⟨hpool, hpivots, ?_⟩
  cases hout : (solveSymbolic (cornerCells (-1)) ⟨2, 2, cornerSystem⟩ cornerTerms.toArray
      1).outcome with
  | error f =>
    rw [hout] at hok
    cases hok
  | ok out =>
    exact ⟨out, rfl, (solveSymbolic_follows isMagnitude_abs.isZero_iff _ _ _ 1 hpool hout).1 _
      hpivots⟩

end Pivotal.Elimination
