import Pivotal.Elimination.Constant

/-!
# What an engine can answer

Whatever the scalars do, a system with `n` equations, `n` unknowns and `n` free terms is answered by
`n` values or by a row below `n` that has no pivot, and any other system is refused for its
dimensions.  Both engines break off at the place of the step that found no pivot, so the row is one
of their places (`row_lt_of_foldlM`).
-/

namespace Pivotal

variable {α : Type u}

/-! ## Dimensions -/

/-- The coefficients are `n` by `n`, and there are `n` free terms. -/
structure HasSize (n : Nat) (a : Grid α) (b : Array α) : Prop where
  rows : a.rows = n
  cols : a.cols = n
  terms : b.size = n

theorem Square.ofGrid_of_hasSize {n : Nat} {a : Grid α} {b : Array α} (h : HasSize n a b) :
    ∃ s, Square.ofGrid a b = .ok s ∧ s.size = n := by
  have hcols : a.cols = a.rows := h.cols.trans h.rows.symm
  have hterms : b.size = a.rows := h.terms.trans h.rows.symm
  refine ⟨⟨a.rows, a.entries.map (·.cast hcols), ⟨b, hterms⟩⟩, ?_, h.rows⟩
  unfold Square.ofGrid
  rw [dif_pos hcols, dif_pos hterms]

theorem Square.hasSize_of_ofGrid {a : Grid α} {b : Array α} {s : Square α}
    (h : Square.ofGrid a b = .ok s) : HasSize s.size a b := by
  unfold Square.ofGrid at h
  split at h
  · next hcols =>
    split at h
    · next hterms =>
      cases h
      exact ⟨rfl, hcols, hterms⟩
    · cases h
  · cases h

theorem exists_of_isOk {ε : Type v} {x : Except ε α} (h : x.isOk = true) : ∃ y, x = .ok y := by
  cases x with
  | error e => cases h
  | ok y => exact ⟨y, rfl⟩

namespace Elimination

/-! ## Rows without a pivot -/

/-- A run whose steps break off at their own places breaks off at one of them. -/
theorem row_lt_of_foldlM {ε σ : Type u} {n : Nat} {step : σ → Fin n → Except ε σ} {row : ε → Nat}
    (hstep : ∀ s i e, step s i = .error e → row e = i.val) (is : List (Fin n)) {s : σ} {e : ε}
    (h : is.foldlM step s = .error e) : row e < n := by
  induction is generalizing s with
  | nil => cases h
  | cons i is ih =>
    rw [List.foldlM_cons] at h
    cases hi : step s i with
    | error e' =>
      rw [hi] at h
      cases h
      rw [hstep s i e hi]
      exact i.isLt
    | ok s' =>
      rw [hi] at h
      exact ih h

variable {n : Nat}

theorem Tableau.row_of_step [Sub α] [Mul α] [Div α] [Pivoting α] (t : Tableau α n) (i : Fin n)
    (e : Tableau.Breakdown α n) (h : t.step i = .error e) : e.row = i.val := by
  unfold Tableau.step Tableau.selectPivot at h
  dsimp only at h
  split at h
  · cases h
    rfl
  · cases h

theorem FormulaTableau.row_of_step [Zero α] [One α] [Add α] [Mul α] [Neg α] [Inv α] [Pivoting α]
    (v : Nat → α) (t : FormulaTableau n) (i : Fin n) (e : FormulaTableau.Breakdown n)
    (h : t.step v i = .error e) : e.row = i.val := by
  unfold FormulaTableau.step FormulaTableau.selectPivot at h
  split at h
  · cases h
    rfl
  · cases h

/-! ## The numeric engine -/

section Numeric

variable [Zero α] [Sub α] [Mul α] [Div α] [Pivoting α]

theorem solveInPlace_cases (a : Table α n n) (b : Vector α n) (ignore : Bool) :
    (solveInPlace a b ignore).outcome = .ok () ∨
      ∃ row, row < n ∧ (solveInPlace a b ignore).outcome = .error (.singular row) := by
  unfold solveInPlace
  split
  · next e he => exact .inr ⟨e.row, row_lt_of_foldlM Tableau.row_of_step _ he, rfl⟩
  · exact .inl rfl

theorem solve_of_ofGrid {a : Grid α} {b : Array α} {s : Square α} (h : Square.ofGrid a b = .ok s)
    (ignore : Bool) : (solve a b ignore).outcome =
      (solveInPlace s.coefficients s.terms ignore).outcome.map fun _ =>
        ((solveInPlace s.coefficients s.terms ignore).terms.toArray,
          ⟨s.size, s.size, (solveInPlace s.coefficients s.terms ignore).coefficients⟩) := by
  unfold solve
  rw [h]
  show Except.map _ (Except.map _ _) = _
  cases (solveInPlace s.coefficients s.terms ignore).outcome with
  | error f => rfl
  | ok u => rfl

/-- A solution has a value for each unknown, and its system is square. -/
theorem hasSize_of_solve {a : Grid α} {b : Array α} {ignore : Bool} {x : Array α} {g : Grid α}
    (h : (solve a b ignore).outcome = .ok (x, g)) : HasSize x.size a b := by
  cases hs : Square.ofGrid a b with
  | error f =>
    unfold solve at h
    rw [hs] at h
    cases h
  | ok s =>
    rw [solve_of_ofGrid hs] at h
    cases hrun : (solveInPlace s.coefficients s.terms ignore).outcome with
    | error f => rw [hrun] at h; cases h
    | ok u =>
      rw [hrun] at h
      cases h
      rw [Vector.size_toArray]
      exact Square.hasSize_of_ofGrid hs

theorem solve_cases {a : Grid α} {b : Array α} (h : HasSize n a b) (ignore : Bool) :
    (∃ x g, (solve a b ignore).outcome = .ok (x, g)) ∨
      ∃ row, row < n ∧ (solve a b ignore).outcome = .error (.singular row) := by
  obtain ⟨s, hs, rfl⟩ := Square.ofGrid_of_hasSize h
  rw [solve_of_ofGrid hs]
  rcases solveInPlace_cases s.coefficients s.terms ignore with hok | ⟨row, hrow, herror⟩
  · rw [hok]
    exact .inl ⟨_, _, rfl⟩
  · rw [herror]
    exact .inr ⟨row, hrow, rfl⟩

end Numeric

/-! ## The symbolic engine -/

/-- The leaves of a system stand as its numbers do. -/
theorem hasSize_constants {a : Grid α} {b : Array α} :
    HasSize n (constantGrid a) (constantTerms a b) ↔ HasSize n a b := by
  have hterms : (constantTerms a b).size = b.size := by simp [constantTerms]
  constructor
  · rintro ⟨hr, hc, ht⟩
    exact ⟨hr, hc, hterms.symm.trans ht⟩
  · rintro ⟨hr, hc, ht⟩
    exact ⟨hr, hc, hterms.trans ht⟩

section Symbolic

variable [Zero α] [One α] [Add α] [Mul α] [Neg α] [Inv α] [Pivoting α]

theorem solveSquareSymbolic_cases (v : Nat → α) (a : Table Expr n n) (b : Vector Expr n)
    (lists : Nat) : (∃ x, (solveSquareSymbolic v a b lists).outcome = .ok x) ∨
      ∃ row, row < n ∧ (solveSquareSymbolic v a b lists).outcome = .error (.singular row) := by
  unfold solveSquareSymbolic
  split
  · next e he =>
    exact .inr ⟨e.row, row_lt_of_foldlM (FormulaTableau.row_of_step v) _ he, rfl⟩
  · exact .inl ⟨_, rfl⟩

theorem solveSymbolic_of_ofGrid (v : Nat → α) {a : Grid Expr} {b : Array Expr} {s : Square Expr}
    (h : Square.ofGrid a b = .ok s) (lists : Nat) : (solveSymbolic v a b lists).outcome =
      (solveSquareSymbolic v s.coefficients s.terms lists).outcome.map fun x =>
        ⟨x.formulas.toArray, ⟨s.size, s.size, x.coefficients⟩, x.lists⟩ := by
  unfold solveSymbolic
  rw [h]

theorem hasSize_of_solveSymbolic {v : Nat → α} {a : Grid Expr} {b : Array Expr} {lists : Nat}
    {r : Formulas} (h : (solveSymbolic v a b lists).outcome = .ok r) :
    HasSize r.formulas.size a b := by
  cases hs : Square.ofGrid a b with
  | error f =>
    unfold solveSymbolic at h
    rw [hs] at h
    cases h
  | ok s =>
    rw [solveSymbolic_of_ofGrid v hs] at h
    cases hrun : (solveSquareSymbolic v s.coefficients s.terms lists).outcome with
    | error f => rw [hrun] at h; cases h
    | ok x =>
      rw [hrun] at h
      cases h
      rw [Vector.size_toArray]
      exact Square.hasSize_of_ofGrid hs

theorem hasSize_of_solveConstants {a : Grid α} {b : Array α} {r : Formulas}
    (h : (solveConstants a b).outcome = .ok r) : HasSize r.formulas.size a b :=
  hasSize_constants.mp (hasSize_of_solveSymbolic h)

theorem solveConstants_cases {a : Grid α} {b : Array α} (h : HasSize n a b) :
    (∃ r, (solveConstants a b).outcome = .ok r) ∨
      ∃ row, row < n ∧ (solveConstants a b).outcome = .error (.singular row) := by
  obtain ⟨s, hs, rfl⟩ := Square.ofGrid_of_hasSize (hasSize_constants.mpr h)
  unfold solveConstants
  rw [solveSymbolic_of_ofGrid _ hs]
  rcases solveSquareSymbolic_cases (constantMemory a b).read s.coefficients s.terms 0 with
    ⟨x, hok⟩ | ⟨row, hrow, herror⟩
  · rw [hok]
    exact .inl ⟨_, rfl⟩
  · rw [herror]
    exact .inr ⟨row, hrow, rfl⟩

end Symbolic

end Elimination

end Pivotal
