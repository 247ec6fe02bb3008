import Pivotal.Proofs.Elimination.Answers
import Pivotal.Proofs.Elimination.Lines

/-!
# Lines as a matrix

Both engines work line by line; `Factorization` works on a matrix.  The leading block of a family of
lines is such a matrix, and here each operation on lines is matched with its operation on matrices:
an exchange (`blockOf_swap`) and the clearing of a column (`blockOf_clear`), together a step
(`Factored.exchange_clear`), and the whole back substitution (`blockTermsOf_substituteBack`).
-/

namespace Pivotal.Elimination

open Matrix

variable {F : Type*} [Field F] {n m : ℕ}

/-- The leading block of the lines as a matrix. -/
def blockOf (l : Fin n → Line F n) (h : m ≤ n) : Matrix (Fin m) (Fin m) F :=
  of fun i j => (l (Fin.castLE h i)).coefficient (Fin.castLE h j)

/-- The free terms of the leading block. -/
def blockTermsOf (l : Fin n → Line F n) (h : m ≤ n) : Fin m → F :=
  fun i => (l (Fin.castLE h i)).term

omit [Field F] in
theorem blockOf_swap {l l' : Fin n → Line F n} {h : m ≤ n} {i j : Fin m}
    (hl : ∀ r, l' r = l (Equiv.swap (Fin.castLE h i) (Fin.castLE h j) r)) :
    blockOf l' h = (blockOf l h).submatrix (Equiv.swap i j) id ∧
      blockTermsOf l' h = blockTermsOf l h ∘ Equiv.swap i j := by
  have hswap : ∀ r, l' (Fin.castLE h r) = l (Fin.castLE h (Equiv.swap i j r)) := by
    intro r
    rw [hl, (Fin.castLE_injective h).map_swap]
  constructor
  · ext r c
    exact congrArg (fun x => x.coefficient (Fin.castLE h c)) (hswap r)
  · funext r
    exact congrArg Line.term (hswap r)

/-- A step on the lines is a step on the block. -/
theorem blockOf_clear {l l' : Fin n → Line F n} {h : m ≤ n} {i : Fin m}
    (hl : ∀ r : Fin m, l' (Fin.castLE h r) =
      if r = i then (l (Fin.castLE h i)).divided m (Fin.castLE h i)
      else if i < r then
        (l (Fin.castLE h r)).reduced m (Fin.castLE h i)
          ((l (Fin.castLE h i)).divided m (Fin.castLE h i))
      else l (Fin.castLE h r)) :
    blockOf l' h = cleared i (blockOf l h) ∧
      blockTermsOf l' h = clearedTerms i (blockOf l h) (blockTermsOf l h) := by
  constructor
  · ext r c
    show (l' (Fin.castLE h r)).coefficient (Fin.castLE h c) = _
    rw [hl]
    simp only [cleared, of_apply, blockOf]
    by_cases hr : r = i
    · rw [if_pos hr, if_pos hr]
      simp only [Line.divided, Fin.castLE_le_castLE_iff, Fin.val_castLE, c.isLt, and_true]
    · rw [if_neg hr, if_neg hr]
      by_cases hlt : i < r
      · rw [if_pos hlt]
        simp only [Line.reduced, Line.divided, Fin.castLE_lt_castLE_iff, Fin.castLE_le_castLE_iff,
          Fin.val_castLE, c.isLt, and_true, hlt, true_and]
        by_cases hc : i < c
        · rw [if_pos hc, if_pos hc, if_pos hc.le]
        · rw [if_neg hc, if_neg hc]
      · rw [if_neg hlt, if_neg (fun e => hlt e.1)]
  · funext r
    show (l' (Fin.castLE h r)).term = _
    rw [hl]
    simp only [clearedTerms]
    by_cases hr : r = i
    · rw [if_pos hr, if_pos hr]
      rfl
    · rw [if_neg hr, if_neg hr]
      by_cases hlt : i < r
      · rw [if_pos hlt, if_pos hlt]
        rfl
      · rw [if_neg hlt, if_neg hlt]
        rfl

/-- A whole step on the lines: lines `i` and `j` are exchanged, and column `i` is cleared with the pivot
that stood in line `j`. -/
theorem Factored.exchange_clear {B : Matrix (Fin m) (Fin m) F} {d p : Fin m → F}
    {l l' l'' : Fin n → Line F n} {h : m ≤ n} {i j : Fin m}
    (hf : Factored B d i p (blockOf l h) (blockTermsOf l h)) (hij : i ≤ j)
    (hpivot : (l (Fin.castLE h j)).coefficient (Fin.castLE h i) ≠ 0)
    (hswap : ∀ r, l' r = l (Equiv.swap (Fin.castLE h i) (Fin.castLE h j) r))
    (hclear : ∀ r : Fin m, l'' (Fin.castLE h r) =
      if r = i then (l' (Fin.castLE h i)).divided m (Fin.castLE h i)
      else if i < r then
        (l' (Fin.castLE h r)).reduced m (Fin.castLE h i)
          ((l' (Fin.castLE h i)).divided m (Fin.castLE h i))
      else l' (Fin.castLE h r)) :
    ∃ p', Factored (B.submatrix (Equiv.swap i j) id) (d ∘ Equiv.swap i j) (i + 1) p' (blockOf l'' h)
      (blockTermsOf l'' h) := by
  obtain ⟨hmatrix, hterms⟩ := blockOf_swap hswap
  obtain ⟨hmatrix', hterms'⟩ := blockOf_clear hclear
  rw [hmatrix', hterms', hmatrix, hterms]
  refine ⟨_, (hf.exchange le_rfl hij).clear rfl ?_⟩
  rw [submatrix_apply, Equiv.swap_apply_left]
  exact hpivot

/-- The same step, whatever exchanges came before it. -/
theorem Reached.exchange_clear {B : Matrix (Fin m) (Fin m) F} {d : Fin m → F}
    {l l' l'' : Fin n → Line F n} {h : m ≤ n} {i j : Fin m}
    (hr : Reached B d i (blockOf l h) (blockTermsOf l h)) (hij : i ≤ j)
    (hpivot : (l (Fin.castLE h j)).coefficient (Fin.castLE h i) ≠ 0)
    (hswap : ∀ r, l' r = l (Equiv.swap (Fin.castLE h i) (Fin.castLE h j) r))
    (hclear : ∀ r : Fin m, l'' (Fin.castLE h r) =
      if r = i then (l' (Fin.castLE h i)).divided m (Fin.castLE h i)
      else if i < r then
        (l' (Fin.castLE h r)).reduced m (Fin.castLE h i)
          ((l' (Fin.castLE h i)).divided m (Fin.castLE h i))
      else l' (Fin.castLE h r)) :
    Reached B d (i + 1) (blockOf l'' h) (blockTermsOf l'' h) := by
  obtain ⟨σ, p, hf⟩ := hr
  obtain ⟨p', hf'⟩ := hf.exchange_clear hij hpivot hswap hclear
  exact ⟨(Equiv.swap i j).trans σ, p', hf'⟩

/-- A loop that takes the values out one place after another, the last first.  `view` gives the
lines of a state. -/
theorem blockTermsOf_substituteBack {σ : Type*} (view : σ → Fin n → Line F n)
    (body : σ → Fin n → σ)
    (hbody : ∀ s i r, view (body s i) r =
      if r < i then (view s r).discharged i (view s i) else view s r)
    (h : m ≤ n) (s : σ) :
    blockTermsOf (view ((List.finRange m).reverse.foldl (fun s i => body s (Fin.castLE h i)) s)) h =
      backSubstituted (blockOf (view s) h) (blockTermsOf (view s) h) := by
  unfold backSubstituted
  refine (List.foldl_rel (l := (List.finRange m).reverse)
    (r := fun s' t => blockOf (view s') h = blockOf (view s) h ∧ blockTermsOf (view s') h = t)
    (f := fun s' i => body s' (Fin.castLE h i)) (g := discharged (blockOf (view s) h))
    (a := s) (b := blockTermsOf (view s) h) ⟨rfl, rfl⟩ ?_).2
  rintro i - s' t ⟨hblock, rfl⟩
  have hline : ∀ r : Fin m, view (body s' (Fin.castLE h i)) (Fin.castLE h r) =
      if r < i then
        (view s' (Fin.castLE h r)).discharged (Fin.castLE h i) (view s' (Fin.castLE h i))
      else view s' (Fin.castLE h r) := by
    intro r
    rw [hbody]
    exact if_congr (Fin.castLE_lt_castLE_iff h) rfl rfl
  constructor
  · rw [← hblock]
    ext r c
    show (view _ (Fin.castLE h r)).coefficient _ = (view s' (Fin.castLE h r)).coefficient _
    rw [hline]
    split
    · rfl
    · rfl
  · rw [← hblock]
    funext r
    show (view _ (Fin.castLE h r)).term = _
    rw [hline]
    simp only [discharged]
    split
    · rfl
    · rfl

end Pivotal.Elimination
