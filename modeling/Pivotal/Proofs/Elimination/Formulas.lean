import Pivotal.Elimination.Symbolic
import Pivotal.Proofs.Elimination.Blocks
import Pivotal.Proofs.Expr.Caching
import Pivotal.Proofs.Expr.Homomorphism

/-!
# Lines of formulas under a valuation

Every assignment of values to the cells turns a tableau of formulas into lines of numbers.  Evaluation
respects the operations, so what a loop of the symbolic engine does to the formulas it does to these
lines, at every assignment at once (`line_clear`, `line_dischargeAbove`).  The formulas share their
lists of operands properly as long as those handed over did (`Shared`), so the value that the engine
reads from its cache is the value of the formula.
-/

namespace Pivotal.Elimination

variable {F : Type*} [Field F] {n : ℕ}

/-! ## Loops that write formulas -/

/-- Rewrites each listed entry of a row. -/
def rewriteEntries (f : Fin n → Expr → Supply Expr) (row : Vector Expr n) (ks : List (Fin n)) :
    Supply (Vector Expr n) :=
  ks.foldlM (fun row k => return put row k (← f k (row.get k))) row

theorem run_rewriteEntries_cons (f : Fin n → Expr → Supply Expr) (row : Vector Expr n) (j : Fin n)
    (ks : List (Fin n)) (k : ℕ) :
    (rewriteEntries f row (j :: ks)).run k =
      (rewriteEntries f (put row j ((f j (row.get j)).run k).1) ks).run
        ((f j (row.get j)).run k).2 := by
  unfold rewriteEntries
  rw [List.foldlM_cons]
  rfl

theorem eval_rewriteEntries (v : ℕ → F) {f : Fin n → Expr → Supply Expr} {g : Fin n → F → F}
    (hf : ∀ j x k, ((f j x).run k).1.eval v = g j (x.eval v)) (ks : List (Fin n)) (hks : ks.Nodup)
    (row : Vector Expr n) (k : ℕ) (c : Fin n) :
    (((rewriteEntries f row ks).run k).1.get c).eval v =
      if c ∈ ks then g c ((row.get c).eval v) else (row.get c).eval v := by
  induction ks generalizing row k with
  | nil => rfl
  | cons j ks ih =>
    obtain ⟨hj, hks⟩ := List.nodup_cons.mp hks
    rw [run_rewriteEntries_cons, ih hks, get_put]
    by_cases hc : c = j
    · subst hc
      rw [if_neg hj, if_pos rfl, if_pos List.mem_cons_self, hf]
    · rw [if_neg hc]
      simp only [List.mem_cons, hc, false_or]

/-- A pool that holds the row grows into one that holds the new row. -/
theorem pool_rewriteEntries {f : Fin n → Expr → Supply Expr} {T : Set Expr}
    (hf : ∀ j x k S, T ⊆ S → x ∈ S → Expr.Pool k S →
      Expr.Pool ((f j x).run k).2 (insert ((f j x).run k).1 S))
    (ks : List (Fin n)) (row : Vector Expr n) (k : ℕ) (S : Set Expr) (hT : T ⊆ S)
    (hrow : ∀ c, row.get c ∈ S) (hp : Expr.Pool k S) :
    ∃ S', S ⊆ S' ∧ (∀ c, ((rewriteEntries f row ks).run k).1.get c ∈ S') ∧
      Expr.Pool ((rewriteEntries f row ks).run k).2 S' := by
  induction ks generalizing row k S with
  | nil => exact ⟨S, subset_rfl, hrow, hp⟩
  | cons j ks ih =>
    have hnew := hf j (row.get j) k S hT (hrow j) hp
    have hput : ∀ c, (put row j ((f j (row.get j)).run k).1).get c ∈
        insert ((f j (row.get j)).run k).1 S := by
      intro c
      rw [get_put]
      by_cases hc : c = j
      · rw [if_pos hc]
        exact .inl rfl
      · rw [if_neg hc]
        exact .inr (hrow c)
    obtain ⟨S', hS, hrow', hp'⟩ := ih _ _ _ (hT.trans (Set.subset_insert _ _)) hput hnew
    rw [run_rewriteEntries_cons]
    exact ⟨S', (Set.subset_insert _ _).trans hS, hrow', hp'⟩

/-- The difference of a formula and a product, as the engine builds it. -/
def subtractProduct (x y factor : Expr) : Supply Expr := do
  x.cancel .sum (← y.join .product factor)

theorem eval_subtractProduct (v : ℕ → F) (x y factor : Expr) (k : ℕ) :
    ((subtractProduct x y factor).run k).1.eval v = x.eval v - factor.eval v * y.eval v := by
  show ((x.cancel .sum ((y.join .product factor).run k).1).run _).1.eval v = _
  rw [Expr.eval_cancel, Expr.eval_join, mul_comm, sub_eq_add_neg]
  rfl

theorem pool_subtractProduct {S : Set Expr} {k : ℕ} (hp : Expr.Pool k S) {x y factor : Expr}
    (hx : x ∈ S) (hy : y ∈ S) (hfactor : factor ∈ S) :
    Expr.Pool ((subtractProduct x y factor).run k).2
      (insert ((subtractProduct x y factor).run k).1 S) :=
  ((hp.join .product hy hfactor).cancel .sum (.inr hx) (.inl rfl)).mono
    (Set.insert_subset_insert (Set.subset_insert _ _))

namespace FormulaTableau

/-- Rewrites the listed entries of row `j`, then its free term. -/
def rewriteLine (t : FormulaTableau n) (j : Fin n) (f : Fin n → Expr → Supply Expr)
    (ks : List (Fin n)) (g : Expr → Supply Expr) : FormulaTableau n :=
  let row := (rewriteEntries f (t.coefficients.get j) ks).run t.lists
  let term := (g (t.terms.get j)).run row.2
  { t with
    coefficients := put t.coefficients j row.1
    terms := put t.terms j term.1
    lists := term.2 }

theorem normalize_eq (t : FormulaTableau n) (i : Fin n) :
    t.normalize i = t.rewriteLine i
      (fun _ x => x.cancel .product ((t.coefficients.get i).get i)) (onward i)
      fun x => x.cancel .product ((t.coefficients.get i).get i) := rfl

theorem reduceRow_eq (t : FormulaTableau n) (i j : Fin n) :
    t.reduceRow i j = t.rewriteLine j
      (fun k x => subtractProduct x ((t.coefficients.get i).get k) ((t.coefficients.get j).get i))
      (after i)
      fun x => subtractProduct x (t.terms.get i) ((t.coefficients.get j).get i) := rfl

theorem discharge_eq (t : FormulaTableau n) (i j : Fin n) :
    t.discharge i j = t.rewriteLine j (fun _ x => pure x) []
      fun x => subtractProduct x (t.terms.get i) ((t.coefficients.get j).get i) := by
  have hrow : put t.coefficients j (t.coefficients.get j) = t.coefficients := by
    refine ext_get fun r => ?_
    rw [get_put]
    by_cases hr : r = j
    · rw [if_pos hr, hr]
    · rw [if_neg hr]
  unfold rewriteLine
  show _ = FormulaTableau.mk (put t.coefficients j (t.coefficients.get j)) _ _ _
  rw [hrow]
  rfl

/-! ## Lines under a valuation -/

/-- The line in place `r` when the cells hold `v`. -/
def line (v : ℕ → F) (t : FormulaTableau n) (r : Fin n) : Line F n :=
  ⟨fun c => ((t.coefficients.get r).get c).eval v, (t.terms.get r).eval v⟩

theorem line_exchange (v : ℕ → F) (t : FormulaTableau n) (i j r : Fin n) :
    (t.exchange i j).line v r = t.line v (Equiv.swap i j r) := by
  unfold line exchange
  simp only [get_swap]

/-- A line is rewritten as its formulas are; `f'` and `g'` are what `f` and `g` do to values. -/
theorem line_rewriteLine (v : ℕ → F) (t : FormulaTableau n) (j : Fin n)
    {f : Fin n → Expr → Supply Expr} {ks : List (Fin n)} (hks : ks.Nodup) {g : Expr → Supply Expr}
    (f' : Fin n → F → F) (hf : ∀ c x k, ((f c x).run k).1.eval v = f' c (x.eval v))
    (g' : F → F) (hg : ∀ x k, ((g x).run k).1.eval v = g' (x.eval v)) (r : Fin n) :
    (t.rewriteLine j f ks g).line v r =
      if r = j then
        ⟨fun c => if c ∈ ks then f' c ((t.line v j).coefficient c) else (t.line v j).coefficient c,
          g' (t.line v j).term⟩
      else t.line v r := by
  unfold rewriteLine line
  simp only [get_put]
  by_cases hr : r = j
  · simp only [if_pos hr, hg, eval_rewriteEntries v hf ks hks]
  · simp only [if_neg hr]

theorem nodup_after (i : Fin n) : (after i).Nodup := (List.nodup_finRange n).filter _

theorem nodup_onward (i : Fin n) : (onward i).Nodup := (List.nodup_finRange n).filter _

theorem nodup_beforeDown (i : Fin n) : (beforeDown i).Nodup :=
  List.nodup_reverse.mpr ((List.nodup_finRange n).filter _)

theorem mem_after {i c : Fin n} : c ∈ after i ↔ i < c := by simp [after]

theorem mem_onward {i c : Fin n} : c ∈ onward i ↔ i ≤ c := by simp [onward]

theorem mem_beforeDown {i c : Fin n} : c ∈ beforeDown i ↔ c < i := by simp [beforeDown]

theorem line_normalize (v : ℕ → F) (t : FormulaTableau n) (i r : Fin n) :
    (t.normalize i).line v r = if r = i then (t.line v i).divided n i else t.line v r := by
  have hdivide : ∀ x k, ((Expr.cancel .product x ((t.coefficients.get i).get i)).run k).1.eval v =
      x.eval v / (t.line v i).coefficient i := fun x k =>
    (Expr.eval_cancel v .product x _ k).trans (div_eq_mul_inv _ _).symm
  rw [normalize_eq, line_rewriteLine v t i (nodup_onward i) (fun _ x => x / _) (fun _ => hdivide)
    (fun x => x / _) hdivide]
  simp only [mem_onward, Line.divided, Fin.is_lt, and_true]

theorem line_reduceRow (v : ℕ → F) (t : FormulaTableau n) (i j r : Fin n) :
    (t.reduceRow i j).line v r =
      if r = j then (t.line v j).reduced n i (t.line v i) else t.line v r := by
  rw [reduceRow_eq, line_rewriteLine v t j (nodup_after i)
    (fun c x => x - (t.line v j).coefficient i * (t.line v i).coefficient c)
    (fun _ x => eval_subtractProduct v x _ _)
    (fun x => x - (t.line v j).coefficient i * (t.line v i).term)
    (fun x => eval_subtractProduct v x _ _)]
  simp only [mem_after, Line.reduced, Fin.is_lt, and_true]

theorem line_reduceBelow (v : ℕ → F) (t : FormulaTableau n) (i r : Fin n) :
    (t.reduceBelow i).line v r =
      if i < r then (t.line v r).reduced n i (t.line v i) else t.line v r := by
  have hline := (foldl_rowwise (line v) (fun _ => True) (fun t j => t.reduceRow i j)
    (fun p l => l.reduced n i p) i
    (fun t j _ _ => ⟨trivial, line_reduceRow v t i j⟩) (after i)
    (nodup_after i) (by simp [mem_after]) t trivial).2 r
  simp only [mem_after] at hline
  exact hline

/-- What one step makes of each line once its pivot stands in place `i`. -/
theorem line_clear (v : ℕ → F) (t : FormulaTableau n) (i r : Fin n) :
    ((t.normalize i).reduceBelow i).line v r =
      if r = i then (t.line v i).divided n i
      else if i < r then (t.line v r).reduced n i ((t.line v i).divided n i)
      else t.line v r := by
  rw [line_reduceBelow, line_normalize, line_normalize, if_pos rfl]
  by_cases hr : r = i
  · rw [if_neg (by rw [hr]; exact lt_irrefl i), if_pos hr, if_pos hr]
  · rw [if_neg hr, if_neg hr]

theorem line_discharge (v : ℕ → F) (t : FormulaTableau n) (i j r : Fin n) :
    (t.discharge i j).line v r =
      if r = j then (t.line v j).discharged i (t.line v i) else t.line v r := by
  rw [discharge_eq, line_rewriteLine v t j List.nodup_nil (fun _ x => x) (fun _ _ _ => rfl)
    (fun x => x - (t.line v j).coefficient i * (t.line v i).term)
    (fun x => eval_subtractProduct v x _ _)]
  simp only [List.not_mem_nil, if_false]
  rfl

theorem line_dischargeAbove (v : ℕ → F) (t : FormulaTableau n) (i r : Fin n) :
    (t.dischargeAbove i).line v r =
      if r < i then (t.line v r).discharged i (t.line v i) else t.line v r := by
  have hline := (foldl_rowwise (line v) (fun _ => True) (fun t j => t.discharge i j)
    (fun p l => l.discharged i p) i
    (fun t j _ _ => ⟨trivial, line_discharge v t i j⟩) (beforeDown i)
    (nodup_beforeDown i) (by simp [mem_beforeDown]) t trivial).2 r
  simp only [mem_beforeDown] at hline
  exact hline

/-! ## Shared lists -/

/-- A pool holds every formula of the tableau. -/
structure Within (t : FormulaTableau n) (S : Set Expr) : Prop where
  pool : Expr.Pool t.lists S
  coefficient : ∀ i j, (t.coefficients.get i).get j ∈ S
  term : ∀ i, t.terms.get i ∈ S

/-- The formulas of the tableau share their lists under identities that the supply has given out. -/
def Shared (t : FormulaTableau n) : Prop := ∃ S, t.Within S

variable {t : FormulaTableau n}

theorem Within.rewriteLine {S : Set Expr} (hw : t.Within S) (j : Fin n)
    {f : Fin n → Expr → Supply Expr} {ks : List (Fin n)} {g : Expr → Supply Expr}
    (hf : ∀ c x k S', S ⊆ S' → x ∈ S' → Expr.Pool k S' →
      Expr.Pool ((f c x).run k).2 (insert ((f c x).run k).1 S'))
    (hg : ∀ x k S', S ⊆ S' → x ∈ S' → Expr.Pool k S' →
      Expr.Pool ((g x).run k).2 (insert ((g x).run k).1 S')) :
    (t.rewriteLine j f ks g).Shared := by
  obtain ⟨S', hS, hrow, hp⟩ := pool_rewriteEntries hf ks (t.coefficients.get j) t.lists S subset_rfl
    (hw.coefficient j) hw.pool
  refine ⟨_, hg (t.terms.get j) _ S' hS (hS (hw.term j)) hp, fun i c => ?_, fun i => ?_⟩
  · simp only [FormulaTableau.rewriteLine, get_put]
    by_cases hi : i = j
    · rw [if_pos hi]
      exact .inr (hrow c)
    · rw [if_neg hi]
      exact .inr (hS (hw.coefficient i c))
  · simp only [FormulaTableau.rewriteLine, get_put]
    by_cases hi : i = j
    · rw [if_pos hi]
      exact .inl rfl
    · rw [if_neg hi]
      exact .inr (hS (hw.term i))

namespace Shared

theorem exchange (h : t.Shared) (i j : Fin n) : (t.exchange i j).Shared := by
  obtain ⟨S, hw⟩ := h
  refine ⟨S, hw.pool, fun r c => ?_, fun r => ?_⟩
  · simp only [FormulaTableau.exchange, get_swap]
    exact hw.coefficient _ c
  · simp only [FormulaTableau.exchange, get_swap]
    exact hw.term _

theorem report (h : t.Shared) (e : Notice) : (t.report e).Shared := by
  obtain ⟨S, hw⟩ := h
  exact ⟨S, hw.pool, hw.coefficient, hw.term⟩

theorem normalize (h : t.Shared) (i : Fin n) : (t.normalize i).Shared := by
  obtain ⟨S, hw⟩ := h
  rw [normalize_eq]
  exact hw.rewriteLine i
    (fun _ x k S' hS hx hp => hp.cancel .product hx (hS (hw.coefficient i i)))
    (fun x k S' hS hx hp => hp.cancel .product hx (hS (hw.coefficient i i)))

theorem reduceRow (h : t.Shared) (i j : Fin n) : (t.reduceRow i j).Shared := by
  obtain ⟨S, hw⟩ := h
  rw [reduceRow_eq]
  exact hw.rewriteLine j
    (fun c x k S' hS hx hp =>
      pool_subtractProduct hp hx (hS (hw.coefficient i c)) (hS (hw.coefficient j i)))
    (fun x k S' hS hx hp => pool_subtractProduct hp hx (hS (hw.term i)) (hS (hw.coefficient j i)))

theorem discharge (h : t.Shared) (i j : Fin n) : (t.discharge i j).Shared := by
  obtain ⟨S, hw⟩ := h
  rw [discharge_eq]
  exact hw.rewriteLine j
    (fun _ x k S' _ hx hp => hp.mono (Set.insert_subset hx subset_rfl))
    (fun x k S' hS hx hp => pool_subtractProduct hp hx (hS (hw.term i)) (hS (hw.coefficient j i)))

theorem clear (h : t.Shared) (i : Fin n) : ((t.normalize i).reduceBelow i).Shared :=
  List.foldlRecOn _ _ (h.normalize i) fun _ ht j _ => ht.reduceRow i j

theorem substituteBack (h : t.Shared) : t.substituteBack.Shared :=
  List.foldlRecOn _ _ h fun _ ht i _ => List.foldlRecOn _ _ ht fun _ ht' j _ => ht'.discharge i j

theorem value_coefficient (h : t.Shared) (v : ℕ → F) (i j : Fin n) :
    ((t.coefficients.get i).get j).value v = (t.line v i).coefficient j := by
  obtain ⟨S, hw⟩ := h
  exact hw.pool.value_eq_eval (hw.coefficient i j) v

theorem value_term (h : t.Shared) (v : ℕ → F) (i : Fin n) :
    (t.terms.get i).value v = (t.line v i).term := by
  obtain ⟨S, hw⟩ := h
  exact hw.pool.value_eq_eval (hw.term i) v

/-- The free terms evaluated one after another with one cache. -/
theorem values_terms (h : t.Shared) (v : ℕ → F) :
    Expr.values v t.terms.toList = List.ofFn fun i => (t.line v i).term := by
  obtain ⟨S, hw⟩ := h
  rw [toList_eq_ofFn, hw.pool.values_eq_map (by simpa [List.mem_ofFn] using hw.term),
    List.map_ofFn]
  rfl

end Shared

end FormulaTableau

end Pivotal.Elimination
