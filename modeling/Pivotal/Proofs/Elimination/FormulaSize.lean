import Pivotal.Proofs.Elimination.Agreement
import Pivotal.Proofs.Expr.Growth

/-!
# How large solution formulas get

The tree of a solution grows exponentially with the number of equations, but most of it is shared.
Every formula that the symbolic engine writes is a quotient or a difference as in `Growth`, so it adds
at most nine to the weight of all lists, and there are about as many of them as numeric operations.

The depth follows the stages of the elimination.  After `i` steps the lines that are not done are
`Open i`: no deeper than `4 * i + 1`.  A line that is divided stays as it is then (`Done`), and a back
substitution adds three to the depth of the terms it meets.
-/

namespace Pivotal.Elimination

open Pivotal.Expr (Stock Light)

variable {n : ℕ}

/-! ## Operations in a loop -/

/-- On any stock that holds the expressions of `T`, the operation adds at most nine and makes an
expression with the property `Q`. -/
def Adds (T : Set Expr) (made : Supply Expr) (Q : Expr → Prop) : Prop :=
  ∀ k total S, T ⊆ S → Stock k total S →
    Stock (made.run k).2 (total + 9) (insert (made.run k).1 S) ∧ Q (made.run k).1

theorem adds_rewriteEntries {f : Fin n → Expr → Supply Expr} {T : Set Expr}
    {Q : Fin n → Expr → Prop} {ks : List (Fin n)} (hks : ks.Nodup) {row : Vector Expr n}
    (hf : ∀ c ∈ ks, Adds T (f c (row.get c)) (Q c)) {k total : ℕ} {S : Set Expr} (hT : T ⊆ S)
    (hrow : ∀ c, row.get c ∈ S) (hst : Stock k total S) :
    let made := (rewriteEntries f row ks).run k
    ∃ S', S ⊆ S' ∧ Stock made.2 (total + 9 * ks.length) S' ∧
      ∀ c, made.1.get c ∈ S' ∧ (c ∈ ks → Q c (made.1.get c)) ∧
        (c ∉ ks → made.1.get c = row.get c) := by
  induction ks generalizing row k total S with
  | nil => exact ⟨S, subset_rfl, hst, fun c => ⟨hrow c, fun hc => absurd hc List.not_mem_nil,
      fun _ => rfl⟩⟩
  | cons j ks ih =>
    obtain ⟨hj, hks⟩ := List.nodup_cons.mp hks
    obtain ⟨hst', hQ⟩ := hf j List.mem_cons_self k total S hT hst
    have hput := get_put row j
    have hf' : ∀ c ∈ ks,
        Adds T (f c ((put row j ((f j (row.get j)).run k).1).get c)) (Q c) := by
      intro c hc
      have hne : c ≠ j := fun e => hj (e ▸ hc)
      rw [hput, if_neg hne]
      exact hf c (List.mem_cons_of_mem j hc)
    have hrow' : ∀ c, (put row j ((f j (row.get j)).run k).1).get c ∈
        insert ((f j (row.get j)).run k).1 S := by
      intro c
      rw [hput]
      split
      · exact .inl rfl
      · exact .inr (hrow c)
    obtain ⟨S', hS, hstock, hnew⟩ := ih hks hf' (hT.trans (Set.subset_insert _ _)) hrow' hst'
    rw [run_rewriteEntries_cons]
    refine ⟨S', (Set.subset_insert _ _).trans hS, hstock.mono subset_rfl ?_, fun c => ?_⟩
    · rw [List.length_cons]
      omega
    · obtain ⟨hmem, hin, hout⟩ := hnew c
      refine ⟨hmem, fun hc => ?_, fun hc => ?_⟩
      · rcases List.mem_cons.mp hc with rfl | hc
        · rw [hout hj, hput, if_pos rfl]
          exact hQ
        · exact hin hc
      · have hne : c ≠ j := fun e => hc (e ▸ List.mem_cons_self)
        rw [hout fun h => hc (List.mem_cons_of_mem j h), hput, if_neg hne]

namespace FormulaTableau

/-- The formulas of a tableau. -/
abbrev formulas (t : FormulaTableau n) : Set Expr := occurring t.coefficients t.terms

/-- A row of formulas with its free term. -/
def formulaLine (t : FormulaTableau n) (r : Fin n) : Vector Expr n × Expr :=
  (t.coefficients.get r, t.terms.get r)

/-- `t'` is `t` with line `j` rewritten into one with the property `Q`, and all lists weigh at most
`total` then. -/
structure Rewritten (t t' : FormulaTableau n) (j : Fin n) (total : ℕ)
    (Q : Vector Expr n × Expr → Prop) : Prop where
  stock : Stock t'.lists total t'.formulas
  other : ∀ r, r ≠ j → t'.formulaLine r = t.formulaLine r
  line : Q (t'.formulaLine j)

theorem Rewritten.mono {t t' : FormulaTableau n} {j : Fin n} {total total' : ℕ}
    {Q Q' : Vector Expr n × Expr → Prop} (h : Rewritten t t' j total Q) (htotal : total ≤ total')
    (hQ : ∀ l, Q l → Q' l) : Rewritten t t' j total' Q' :=
  ⟨h.stock.mono subset_rfl htotal, h.other, hQ _ h.line⟩

/-- Rewriting a line adds nine for each formula that is written. -/
theorem rewritten_rewriteLine {t : FormulaTableau n} (j : Fin n) (f : Fin n → Expr → Supply Expr)
    {ks : List (Fin n)} (hks : ks.Nodup) (g : Expr → Supply Expr) (Q : Fin n → Expr → Prop)
    {R : Expr → Prop} (hf : ∀ c ∈ ks, Adds t.formulas (f c ((t.coefficients.get j).get c)) (Q c))
    (hg : Adds t.formulas (g (t.terms.get j)) R) {total : ℕ}
    (hst : Stock t.lists total t.formulas) :
    Rewritten t (t.rewriteLine j f ks g) j (total + 9 * (ks.length + 1)) fun l =>
      (∀ c ∈ ks, Q c (l.1.get c)) ∧ (∀ c, c ∉ ks → l.1.get c = (t.coefficients.get j).get c) ∧
        R l.2 := by
  obtain ⟨S, hS, hrow, hnew⟩ := adds_rewriteEntries hks hf subset_rfl
    (fun c => .inl ⟨j, c, rfl⟩) hst
  obtain ⟨hterm, hR⟩ := hg _ _ S hS hrow
  have hline : ∀ r, (t.rewriteLine j f ks g).formulaLine r =
      if r = j then (((rewriteEntries f (t.coefficients.get j) ks).run t.lists).1,
        ((g (t.terms.get j)).run
          ((rewriteEntries f (t.coefficients.get j) ks).run t.lists).2).1)
      else t.formulaLine r := by
    intro r
    simp only [formulaLine, rewriteLine, get_put]
    split
    · rfl
    · rfl
  refine ⟨hterm.mono ?_ (by omega), fun r hr => (hline r).trans (if_neg hr), ?_⟩
  · rintro e (⟨r, c, rfl⟩ | ⟨r, rfl⟩)
    · show ((t.rewriteLine j f ks g).formulaLine r).1.get c ∈ _
      rw [hline]
      split
      · exact .inr (hnew c).1
      · exact .inr (hS (.inl ⟨r, c, rfl⟩))
    · show ((t.rewriteLine j f ks g).formulaLine r).2 ∈ _
      rw [hline]
      split
      · exact .inl rfl
      · exact .inr (hS (.inr ⟨r, rfl⟩))
  · rw [hline, if_pos rfl]
    exact ⟨fun c hc => (hnew c).2.1 hc, fun c hc => (hnew c).2.2 hc, hR⟩

/-- A loop that rewrites each listed line once, from that line and line `i`. -/
theorem stock_foldl (body : FormulaTableau n → Fin n → FormulaTableau n)
    (P Q : Fin n → Vector Expr n × Expr → Prop) (cost : ℕ) (i : Fin n)
    {pivot : Vector Expr n × Expr}
    (hbody : ∀ t j total, Stock t.lists total t.formulas → t.formulaLine i = pivot →
      P j (t.formulaLine j) → Rewritten t (body t j) j (total + cost) (Q j))
    (js : List (Fin n)) (hjs : js.Nodup) (hi : i ∉ js) (t : FormulaTableau n) (total : ℕ)
    (hst : Stock t.lists total t.formulas) (hpivot : t.formulaLine i = pivot)
    (hP : ∀ j ∈ js, P j (t.formulaLine j)) :
    Stock (js.foldl body t).lists (total + cost * js.length) (js.foldl body t).formulas ∧
      (∀ r, r ∉ js → (js.foldl body t).formulaLine r = t.formulaLine r) ∧
      ∀ j ∈ js, Q j ((js.foldl body t).formulaLine j) := by
  induction js generalizing t total with
  | nil => exact ⟨hst, fun _ _ => rfl, fun j hj => absurd hj List.not_mem_nil⟩
  | cons j js ih =>
    -- Line `i` is not listed, so the lines after `j` still meet it as it was.
    obtain ⟨hj, hjs⟩ := List.nodup_cons.mp hjs
    have hij : i ≠ j := fun e => hi (e ▸ List.mem_cons_self)
    have hturn := hbody t j total hst hpivot (hP j List.mem_cons_self)
    obtain ⟨hstock, hlines, hQs⟩ := ih hjs (fun h => hi (List.mem_cons_of_mem j h)) (body t j) _
      hturn.stock ((hturn.other i hij).trans hpivot) fun r hr => by
        rw [hturn.other r fun e => hj (e ▸ hr)]
        exact hP r (List.mem_cons_of_mem j hr)
    rw [List.foldl_cons]
    refine ⟨hstock.mono subset_rfl ?_, fun r hr => ?_, fun r hr => ?_⟩
    · rw [List.length_cons, Nat.mul_succ]
      omega
    · rw [hlines r fun h => hr (List.mem_cons_of_mem j h),
        hturn.other r fun e => hr (e ▸ List.mem_cons_self)]
    · rcases List.mem_cons.mp hr with rfl | hr
      · rw [hlines r hj]
        exact hturn.line
      · exact hQs r hr

/-! ## Stages of the elimination -/

/-- Light, and no product. -/
def Dividable (d : ℕ) (e : Expr) : Prop := Light d e ∧ e.isOf .product = false

/-- A line after `i` steps none of which has divided it. -/
structure Open (i : ℕ) (l : Vector Expr n × Expr) : Prop where
  coefficient : ∀ c : Fin n, i ≤ c.val → Dividable (4 * i + 1) (l.1.get c)
  term : Dividable (4 * i + 1) l.2

/-- A divided line: its diagonal stands in place `r`. -/
structure Done (d : ℕ) (r : Fin n) (l : Vector Expr n × Expr) : Prop where
  coefficient : ∀ c, r < c → Light d (l.1.get c)
  term : Light d l.2

theorem Done.mono {d d' : ℕ} {r : Fin n} {l : Vector Expr n × Expr} (hl : Done d r l)
    (hd : d ≤ d') : Done d' r l :=
  ⟨fun c hc => (hl.coefficient c hc).mono hd, hl.term.mono hd⟩

theorem adds_quotient {T : Set Expr} {d : ℕ} {x y : Expr} (hx : x ∈ T) (hy : y ∈ T)
    (hlx : Dividable d x) (hly : Dividable d y) :
    Adds T (x.cancel .product y) (Light (d + 1)) := fun _ _ _ hT hst =>
  hst.quotient (hT hx) (hT hy) hlx.1 hly.1 hlx.2 hly.2

theorem adds_subtractProduct {T : Set Expr} {d : ℕ} {x y factor : Expr} (hx : x ∈ T) (hy : y ∈ T)
    (hfactor : factor ∈ T) (hlx : Light d x) (hly : Light d y) (hlf : Light d factor) :
    Adds T (subtractProduct x y factor) (Dividable (d + 3)) := fun _ _ _ hT hst =>
  hst.difference (hT hx) (hT hy) (hT hfactor) hlx hly hlf

theorem length_le_of_nodup {ks : List (Fin n)} (hks : ks.Nodup) : ks.length ≤ n := by
  have hcard := hks.length_le_card
  rwa [Fintype.card_fin] at hcard

theorem rewritten_normalize {t : FormulaTableau n} {i : Fin n} {total : ℕ}
    (hst : Stock t.lists total t.formulas) (hopen : Open i (t.formulaLine i)) :
    Rewritten t (t.normalize i) i (total + 9 * (n + 1)) (Done (4 * i + 2) i) := by
  have hdiagonal : Dividable (4 * i + 1) ((t.coefficients.get i).get i) :=
    hopen.coefficient i le_rfl
  have hquotient : ∀ x ∈ t.formulas, Dividable (4 * i + 1) x →
      Adds t.formulas (x.cancel .product ((t.coefficients.get i).get i)) (Light (4 * i + 2)) :=
    fun x hx hlx => adds_quotient hx (.inl ⟨i, i, rfl⟩) hlx hdiagonal
  have hlength := length_le_of_nodup (nodup_onward i)
  have hline := rewritten_rewriteLine i
    (fun _ x => x.cancel .product ((t.coefficients.get i).get i)) (nodup_onward i)
    (fun x => x.cancel .product ((t.coefficients.get i).get i)) (fun _ => Light (4 * i + 2))
    (fun c hc => hquotient _ (.inl ⟨i, c, rfl⟩) (hopen.coefficient c (mem_onward.mp hc)))
    (hquotient _ (.inr ⟨i, rfl⟩) hopen.term) hst
  refine hline.mono (by omega) fun l ⟨hrow, _, hterm⟩ => ⟨fun c hc => ?_, hterm⟩
  exact hrow c (mem_onward.mpr (le_of_lt hc))

theorem rewritten_reduceRow {t : FormulaTableau n} {i j : Fin n} {total : ℕ}
    (hst : Stock t.lists total t.formulas) (hdone : Done (4 * i + 2) i (t.formulaLine i))
    (hopen : Open i (t.formulaLine j)) :
    Rewritten t (t.reduceRow i j) j (total + 9 * (n + 1)) (Open (i + 1)) := by
  have hlight : ∀ {e}, Dividable (4 * i + 1) e → Light (4 * i + 2) e :=
    fun he => he.1.mono (by omega)
  -- Nothing that is read is deeper than the divided line, and a difference is three deeper.
  have hdifference : ∀ x ∈ t.formulas, ∀ y ∈ t.formulas, Dividable (4 * i + 1) x →
      Light (4 * i + 2) y →
      Adds t.formulas (subtractProduct x y ((t.coefficients.get j).get i))
        (Dividable (4 * (i + 1) + 1)) :=
    fun x hx y hy hlx hly => adds_subtractProduct hx hy (.inl ⟨j, i, rfl⟩) (hlight hlx) hly
      (hlight (hopen.coefficient i le_rfl))
  have hlength := length_le_of_nodup (nodup_after i)
  have hline := rewritten_rewriteLine j
    (fun c x => subtractProduct x ((t.coefficients.get i).get c) ((t.coefficients.get j).get i))
    (nodup_after i) (fun x => subtractProduct x (t.terms.get i) ((t.coefficients.get j).get i))
    (fun _ => Dividable (4 * (i + 1) + 1))
    (fun c hc => hdifference _ (.inl ⟨j, c, rfl⟩) _ (.inl ⟨i, c, rfl⟩)
      (hopen.coefficient c (le_of_lt (mem_after.mp hc))) (hdone.coefficient c (mem_after.mp hc)))
    (hdifference _ (.inr ⟨j, rfl⟩) _ (.inr ⟨i, rfl⟩) hopen.term hdone.term) hst
  refine hline.mono (by omega) fun l ⟨hrow, _, hterm⟩ => ⟨fun c hc => ?_, hterm⟩
  exact hrow c (mem_after.mpr hc)

/-- After `i` steps: the lines before `i` are divided, the others open. -/
structure Sized (i total : ℕ) (t : FormulaTableau n) : Prop where
  stock : Stock t.lists total t.formulas
  done : ∀ r : Fin n, r.val < i → Done (4 * n) r (t.formulaLine r)
  opened : ∀ r : Fin n, i ≤ r.val → Open i (t.formulaLine r)

theorem formulaLine_pivoted (t : FormulaTableau n) (i j r : Fin n) :
    (t.pivoted i j).formulaLine r = t.formulaLine (Equiv.swap i j r) := by
  unfold pivoted
  by_cases hj : j = i
  · rw [if_pos hj, hj, Equiv.swap_self]
    rfl
  · rw [if_neg hj]
    simp only [formulaLine, report, exchange, get_swap]

theorem lists_pivoted (t : FormulaTableau n) (i j : Fin n) : (t.pivoted i j).lists = t.lists := by
  unfold pivoted
  split
  · rfl
  · rfl

theorem formulas_subset {t t' : FormulaTableau n} (σ : Fin n → Fin n)
    (h : ∀ r, t'.formulaLine r = t.formulaLine (σ r)) : t'.formulas ⊆ t.formulas := by
  rintro e (⟨r, c, rfl⟩ | ⟨r, rfl⟩)
  · exact .inl ⟨σ r, c, congrArg (fun l => l.1.get c) (h r).symm⟩
  · exact .inr ⟨σ r, congrArg Prod.snd (h r).symm⟩

theorem Sized.pivoted {t : FormulaTableau n} {i j : Fin n} {total : ℕ} (ht : Sized i total t)
    (hij : i ≤ j) : Sized i total (t.pivoted i j) := by
  refine ⟨?_, fun r hr => ?_, fun r hr => ?_⟩
  · rw [lists_pivoted]
    exact ht.stock.mono (formulas_subset _ (formulaLine_pivoted t i j)) le_rfl
  · have hri : r ≠ i := ne_of_lt hr
    have hrj : r ≠ j := ne_of_lt (lt_of_lt_of_le hr hij)
    rw [formulaLine_pivoted, Equiv.swap_apply_of_ne_of_ne hri hrj]
    exact ht.done r hr
  · rw [formulaLine_pivoted]
    refine ht.opened _ ?_
    rw [Equiv.swap_apply_def]
    split
    · exact hij
    · split
      · exact le_rfl
      · exact hr

/-- One step of the elimination: line `i` is divided, and the lines below it are reduced. -/
theorem Sized.clear {t : FormulaTableau n} {i : Fin n} {total : ℕ} (ht : Sized i total t) :
    Sized (i + 1) (total + 9 * (n + 1) * (n + 1)) ((t.normalize i).reduceBelow i) := by
  obtain ⟨hst, hother, hdone⟩ := rewritten_normalize ht.stock (ht.opened i le_rfl)
  obtain ⟨hstock, hlines, hopen⟩ := stock_foldl (fun t j => t.reduceRow i j) (fun _ => Open i)
    (fun _ => Open (i + 1)) (9 * (n + 1)) i
    (fun s j total hs hpivot hopen => rewritten_reduceRow hs (hpivot ▸ hdone) hopen)
    (after i) (nodup_after i) (by simp [mem_after]) (t.normalize i) _ hst rfl
    (fun j hj => by
      have hij := mem_after.mp hj
      rw [hother j (ne_of_gt hij)]
      exact ht.opened j (le_of_lt hij))
  have hlength := length_le_of_nodup (nodup_after i)
  refine ⟨hstock.mono subset_rfl ?_, fun r hr => ?_, fun r hr => hopen r (mem_after.mpr hr)⟩
  · have hbelow := Nat.mul_le_mul_left (9 * (n + 1)) hlength
    calc total + 9 * (n + 1) + 9 * (n + 1) * (after i).length
        ≤ total + 9 * (n + 1) + 9 * (n + 1) * n := Nat.add_le_add_left hbelow _
      _ = total + 9 * (n + 1) * (n + 1) := by ring
  · have hnot : r ∉ after i := fun h =>
      absurd (mem_after.mp h) (not_lt_of_ge (Nat.lt_succ_iff.mp hr))
    show Done _ _ (((after i).foldl _ (t.normalize i)).formulaLine r)
    rw [hlines r hnot]
    by_cases hri : r = i
    · subst hri
      exact hdone.mono (by omega)
    · rw [hother r hri]
      exact ht.done r (by omega)

section Scalars

variable {α : Type*} [Zero α] [One α] [Add α] [Mul α] [Neg α] [Inv α] [Pivoting α]

/-- What every step keeps, the elimination keeps. -/
theorem Sized.eliminate {v : ℕ → α} {t t' : FormulaTableau n} (ht : Sized 0 0 t)
    (h : t.eliminate v = .ok t') : Sized n (n * (9 * (n + 1) * (n + 1))) t' := by
  refine (foldlM_finRange (fun i t => Sized i (i * (9 * (n + 1) * (n + 1))) t) (fun _ => True)
    (fun i s s' hs hstep => ?_) (fun _ _ _ _ _ => trivial) t ?_).1 t' h
  · obtain ⟨j, hij, -, rfl⟩ := step_ok hstep
    rw [Nat.succ_mul]
    exact (hs.pivoted hij).clear
  · rw [Nat.zero_mul]
    exact ht

end Scalars

/-! ## Back substitution -/

/-- The lines are all divided, and their formulas light. -/
structure Divided (d total : ℕ) (t : FormulaTableau n) : Prop where
  stock : Stock t.lists total t.formulas
  done : ∀ r, Done d r (t.formulaLine r)

theorem rewritten_discharge {t : FormulaTableau n} {i j : Fin n} {d total : ℕ}
    (hst : Stock t.lists total t.formulas) (hi : Done d i (t.formulaLine i))
    (hj : Done d j (t.formulaLine j)) (hij : j < i) :
    Rewritten t (t.discharge i j) j (total + 9) (Done (d + 3) j) := by
  have hline := rewritten_rewriteLine j (fun _ x => pure x) List.nodup_nil
    (fun x => subtractProduct x (t.terms.get i) ((t.coefficients.get j).get i)) (fun _ _ => True)
    (fun c hc => absurd hc List.not_mem_nil)
    (adds_subtractProduct (.inr ⟨j, rfl⟩) (.inr ⟨i, rfl⟩) (.inl ⟨j, i, rfl⟩) hj.term hi.term
      (hj.coefficient i hij)) hst
  rw [discharge_eq]
  refine hline.mono le_rfl fun l ⟨_, hrow, hterm⟩ => ⟨fun c hc => ?_, hterm.1⟩
  rw [hrow c List.not_mem_nil]
  exact (hj.coefficient c hc).mono (by omega)

theorem Divided.dischargeAbove {t : FormulaTableau n} {d total : ℕ} (ht : Divided d total t)
    (i : Fin n) : Divided (d + 3) (total + 9 * n) (t.dischargeAbove i) := by
  obtain ⟨hstock, hlines, hdone⟩ := stock_foldl (fun t j => t.discharge i j)
    (fun j l => j < i ∧ Done d j l) (fun j => Done (d + 3) j) 9 i
    (fun s j total hs hpivot hj => rewritten_discharge hs (hpivot ▸ ht.done i) hj.2 hj.1)
    (beforeDown i) (nodup_beforeDown i) (by simp [mem_beforeDown]) t total ht.stock rfl
    (fun j hj => ⟨mem_beforeDown.mp hj, ht.done j⟩)
  have hlength := length_le_of_nodup (nodup_beforeDown i)
  refine ⟨hstock.mono subset_rfl (by omega), fun r => ?_⟩
  by_cases hr : r ∈ beforeDown i
  · exact hdone r hr
  · have hline : (t.dischargeAbove i).formulaLine r = t.formulaLine r := hlines r hr
    rw [hline]
    exact (ht.done r).mono (by omega)

theorem Divided.foldl_dischargeAbove (is : List (Fin n)) {t : FormulaTableau n} {d total : ℕ}
    (ht : Divided d total t) :
    Divided (d + 3 * is.length) (total + 9 * n * is.length)
      (is.foldl FormulaTableau.dischargeAbove t) := by
  induction is generalizing t d total with
  | nil => exact ht
  | cons i is ih =>
    have hrest := ih (ht.dischargeAbove i)
    rw [List.length_cons, List.foldl_cons, Nat.mul_succ, Nat.mul_succ, Nat.add_comm (3 * _),
      Nat.add_comm (9 * n * _), ← Nat.add_assoc, ← Nat.add_assoc]
    exact hrest

theorem Divided.substituteBack {t : FormulaTableau n} {d total : ℕ} (ht : Divided d total t) :
    Divided (d + 3 * n) (total + 9 * n * n) t.substituteBack := by
  have hback := ht.foldl_dischargeAbove (List.finRange n).reverse
  rwa [List.length_reverse, List.length_finRange] at hback

/-! ## From the first tableau to the last -/

/-- The tableau of a system of leaves. -/
theorem sized_leaves {t : FormulaTableau n} (ht : ∀ e ∈ t.formulas, ∃ l, e = .leaf l)
    (hlists : t.lists = 0) : Sized 0 0 t := by
  have hleaf : ∀ e ∈ t.formulas, Dividable 1 e := by
    intro e he
    obtain ⟨l, rfl⟩ := ht e he
    exact ⟨.leaf l, rfl⟩
  refine ⟨?_, fun r hr => absurd hr r.val.not_lt_zero,
    fun r _ => ⟨fun c _ => hleaf _ (.inl ⟨r, c, rfl⟩), hleaf _ (.inr ⟨r, rfl⟩)⟩⟩
  rw [hlists]
  exact Stock.leaves ht

end FormulaTableau

theorem count_bound (hn : 0 < n) : 1 + (n * (9 * (n + 1) * (n + 1)) + 9 * n * n) ≤ 100 * n ^ 3 := by
  have hone : 1 ≤ n ^ 3 := Nat.pow_pos hn
  have hlinear : n ≤ n ^ 3 := Nat.le_self_pow (by omega) n
  have hsquare : n ^ 2 ≤ n ^ 3 := Nat.pow_le_pow_right hn (by omega)
  calc 1 + (n * (9 * (n + 1) * (n + 1)) + 9 * n * n)
      = 1 + 9 * n + 27 * n ^ 2 + 9 * n ^ 3 := by ring
    _ ≤ 100 * n ^ 3 := by omega

section Scalars

variable {α : Type*} [Zero α] [One α] [Add α] [Mul α] [Neg α] [Inv α] [Pivoting α]

/-- Solved as a system of constants, a system of `n` equations has `n` formulas of cubic size, each
list of operands counted once, and of linear depth.  The numbers may be of any kind: only the choice
of pivots looks at them. -/
theorem solveConstants_size (a : Table α n n) (b : Vector α n) {out : Formulas}
    (hout : (solveConstants ⟨n, n, a⟩ b.toArray).outcome = .ok out) :
    out.formulas.size = n ∧
      ∀ e ∈ out.formulas, e.distinctCount ≤ 100 * n ^ 3 ∧ e.depth ≤ 8 * n := by
  have hsized : (FormulaTableau.mk (leafTable n) (leafTerms n) 0 []).Sized 0 0 :=
    FormulaTableau.sized_leaves occurring_leaves rfl
  have hgrid : constantGrid ⟨n, n, a⟩ = ⟨n, n, leafTable n⟩ := rfl
  rw [solveConstants, constantTerms_square, hgrid, solveSymbolic_square] at hout
  cases hrun : (FormulaTableau.mk (leafTable n) (leafTerms n) 0 []).eliminate
      (constantMemory ⟨n, n, a⟩ b.toArray).read with
  | error e =>
    rw [hrun] at hout
    cases hout
  | ok t =>
    rw [hrun] at hout
    cases hout
    have ht := hsized.eliminate hrun
    have hback : t.substituteBack.Divided _ _ :=
      FormulaTableau.Divided.substituteBack ⟨ht.stock, fun r => ht.done r r.isLt⟩
    refine ⟨t.substituteBack.terms.size_toArray, fun e he => ?_⟩
    obtain ⟨r, hr, rfl⟩ := Vector.mem_iff_getElem.mp (Vector.mem_toArray_iff e _ |>.mp he)
    constructor
    · have hcount := hback.stock.distinctCount_le (.inr ⟨⟨r, hr⟩, rfl⟩)
      exact hcount.trans (count_bound (Nat.zero_lt_of_lt hr))
    · have hdepth := (hback.done ⟨r, hr⟩).term.depth_le
      exact hdepth.trans (by omega)

/-- The first pivot is zero, and the rows are exchanged. -/
theorem solveConstants_size_exchanged :
    ∃ out, (solveConstants ⟨2, 2, #v[#v[0, 1], #v[1, 1]]⟩ (#v[1, 2] : Vector ℚ 2).toArray).outcome =
        .ok out ∧
      out.formulas.size = 2 ∧
      ∀ e ∈ out.formulas, e.distinctCount ≤ 100 * 2 ^ 3 ∧ e.depth ≤ 8 * 2 := by
  have hok : (solveConstants ⟨2, 2, #v[#v[0, 1], #v[1, 1]]⟩
      (#v[1, 2] : Vector ℚ 2).toArray).outcome.isOk = true := by cbv
  cases hout : (solveConstants ⟨2, 2, #v[#v[0, 1], #v[1, 1]]⟩
      (#v[1, 2] : Vector ℚ 2).toArray).outcome with
  | error f =>
    rw [hout] at hok
    cases hok
  | ok out => exact ⟨out, rfl, solveConstants_size _ _ hout⟩

end Scalars

end Pivotal.Elimination
