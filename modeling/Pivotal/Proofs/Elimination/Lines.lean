import Pivotal.Proofs.Elimination.Arranged

/-!
# What the loops leave in each row

A `Line` is a row together with its free term.  Each loop of the elimination changes a line as a
whole, from that line and the pivot line, so a step is described by what becomes of each line:

* `Line.divided`: the pivot line after the division;
* `Line.reduced`: a line below after the subtraction;
* `Line.discharged`: a line above after its back substitution.

`m` is the size of the leading block; the columns from `m` on are not touched.
-/

namespace Pivotal.Elimination

variable {α : Type u} {n : Nat}

/-- A row of coefficients with its free term. -/
@[ext] structure Line (α : Type u) (n : Nat) where
  coefficient : Fin n → α
  term : α

namespace Line

/-- The line divided by its coefficient in column `i`, from that column on. -/
def divided [Div α] (l : Line α n) (m : Nat) (i : Fin n) : Line α n where
  coefficient c := if i ≤ c ∧ c.val < m then l.coefficient c / l.coefficient i else l.coefficient c
  term := l.term / l.coefficient i

/-- The line less the multiple of `p` that clears column `i`, right of that column. -/
def reduced [Sub α] [Mul α] (l : Line α n) (m : Nat) (i : Fin n) (p : Line α n) : Line α n where
  coefficient c :=
    if i < c ∧ c.val < m then l.coefficient c - l.coefficient i * p.coefficient c
    else l.coefficient c
  term := l.term - l.coefficient i * p.term

/-- The line whose free term is rid of the variable in place `i`, solved in line `p`. -/
def discharged [Sub α] [Mul α] (l : Line α n) (i : Fin n) (p : Line α n) : Line α n where
  coefficient := l.coefficient
  term := l.term - l.coefficient i * p.term

end Line

namespace Arranged

/-- The line in place `r`. -/
def line (s : Arranged α n) (r : Fin n) : Line α n := ⟨s.entry r, s.term r⟩

theorem line_write (s : Arranged α n) (i : Fin n) (row : Vector α n) (x : α) (r : Fin n) :
    line { s with coefficients := put s.coefficients i row, terms := put s.terms i x } r =
      if r = i then ⟨row.get, x⟩ else s.line r := by
  unfold line entry term
  simp only [get_put]
  by_cases hr : r = i
  · simp only [if_pos hr]
  · simp only [if_neg hr]

theorem line_normalize [Div α] (s : Arranged α n) (i r : Fin n) :
    (s.normalize i).line r = if r = i then (s.line i).divided s.active i else s.line r := by
  unfold normalize
  rw [line_write]
  congr 1
  ext c
  · refine (get_foldl_put id Function.injective_id (fun _ x => x / s.entry i i) _
      (s.nodup_places _) _ c).trans ?_
    simp only [mem_places]
    rfl
  · rfl

theorem line_reduceRow [Sub α] [Mul α] [Pivoting α] (s : Arranged α n) (i j r : Fin n) :
    (s.reduceRow i j).line r =
      if r = j then
        if isZero (s.entry j i) then s.line j else (s.line j).reduced s.active i (s.line i)
      else s.line r := by
  unfold reduceRow
  by_cases hz : isZero (s.entry j i) = true
  · simp only [if_pos hz]
    by_cases hr : r = j
    · rw [if_pos hr, hr]
    · rw [if_neg hr]
  · simp only [if_neg hz]
    rw [line_write]
    congr 1
    ext c
    · refine (get_foldl_put id Function.injective_id (fun k x => x - s.entry j i * s.entry i k) _
        (s.nodup_places _) _ c).trans ?_
      simp only [mem_places]
      rfl
    · rfl

/-! ## Loops over lines -/

/-- The loops move nothing: every equation and variable stays in its place. -/
structure Still (s s' : Arranged α n) : Prop where
  active : s'.active = s.active
  equations : s'.equations = s.equations
  unknowns : s'.unknowns = s.unknowns

theorem Still.refl (s : Arranged α n) : Still s s := ⟨rfl, rfl, rfl⟩

theorem Still.trans {s s' s'' : Arranged α n} (h : Still s s') (h' : Still s' s'') : Still s s'' :=
  ⟨h'.active.trans h.active, h'.equations.trans h.equations, h'.unknowns.trans h.unknowns⟩

theorem line_swapRows (s : Arranged α n) (i j r : Fin n) :
    (s.swapRows i j).line r = s.line (Equiv.swap i j r) := by
  ext c
  · exact entry_swapRows s i j r c
  · exact term_swapRows s i j r

theorem still_normalize [Div α] (s : Arranged α n) (i : Fin n) : Still s (s.normalize i) :=
  ⟨rfl, rfl, rfl⟩

theorem still_reduceRow [Sub α] [Mul α] [Pivoting α] (s : Arranged α n) (i j : Fin n) :
    Still s (s.reduceRow i j) := by
  unfold reduceRow
  simp only
  split
  · exact Still.refl s
  · exact ⟨rfl, rfl, rfl⟩

/-- A line below the pivot line; one that the column spares is left as it is. -/
theorem reduceBelow_spec [Sub α] [Mul α] [Pivoting α] (s : Arranged α n) (i : Fin n) :
    Still s (s.reduceBelow i) ∧ ∀ r, (s.reduceBelow i).line r =
      if i < r ∧ r.val < s.active then
        if isZero (s.entry r i) then s.line r else (s.line r).reduced s.active i (s.line i)
      else s.line r := by
  obtain ⟨hstill, hline⟩ := foldl_rowwise (fun s' : Arranged α n => s'.line) (Still s)
    (fun s' j => s'.reduceRow i j)
    (fun p l => if isZero (l.coefficient i) then l else l.reduced s.active i p) i
    (by
      intro s' j hs' hji
      refine ⟨hs'.trans (still_reduceRow s' i j), fun r => ?_⟩
      rw [line_reduceRow, hs'.active]
      rfl)
    (s.places (i.val + 1)) (s.nodup_places _) (by simp [mem_places]) s (Still.refl s)
  refine ⟨hstill, fun r => (hline r).trans ?_⟩
  simp only [mem_places]
  rfl

theorem dischargeAbove_spec [Sub α] [Mul α] (s : Arranged α n) (i : Fin n) :
    Still s (s.dischargeAbove i) ∧ ∀ r, (s.dischargeAbove i).line r =
      if r < i then (s.line r).discharged i (s.line i) else s.line r := by
  -- The solved value was read before the loop; no turn of the loop changes line `i`.
  obtain ⟨hstill, hline⟩ := foldl_rowwise (fun s' : Arranged α n => s'.line)
    (fun s' => Still s s' ∧ s'.term i = s.term i)
    (fun s' j => { s' with terms := put s'.terms j (s'.term j - s'.entry j i * s.term i) })
    (fun p l => l.discharged i p) i
    (by
      rintro s' j ⟨hs', hi⟩ hji
      have hterm : ∀ r, (put s'.terms j (s'.term j - s'.entry j i * s.term i)).get r =
          if r = j then s'.term j - s'.entry j i * s.term i else s'.term r :=
        fun r => get_put _ _ _ _
      refine ⟨⟨hs'.trans ⟨rfl, rfl, rfl⟩, ?_⟩, fun r => ?_⟩
      · exact (hterm i).trans ((if_neg (Ne.symm hji)).trans hi)
      · by_cases hr : r = j
        · subst hr
          rw [if_pos rfl]
          ext c
          · rfl
          · refine (hterm r).trans ((if_pos rfl).trans ?_)
            rw [← hi]
            rfl
        · rw [if_neg hr]
          ext c
          · rfl
          · exact (hterm r).trans (if_neg hr))
    ((List.finRange n).filter (· < i)).reverse
    (List.nodup_reverse.mpr ((List.nodup_finRange n).filter _)) (by simp) s ⟨Still.refl s, rfl⟩
  refine ⟨hstill.1, fun r => (hline r).trans ?_⟩
  simp

/-- What one step makes of each line once its pivot stands in place `i`. -/
theorem clear_spec [Sub α] [Mul α] [Div α] [Pivoting α] (s : Arranged α n) (i : Fin n) :
    Still s ((s.normalize i).reduceBelow i) ∧ ∀ r, ((s.normalize i).reduceBelow i).line r =
      if r = i then (s.line i).divided s.active i
      else if i < r ∧ r.val < s.active then
        if isZero (s.entry r i) then s.line r
        else (s.line r).reduced s.active i ((s.line i).divided s.active i)
      else s.line r := by
  obtain ⟨hstill, hline⟩ := reduceBelow_spec (s.normalize i) i
  refine ⟨(still_normalize s i).trans hstill, fun r => ?_⟩
  rw [hline r, (still_normalize s i).active, line_normalize, line_normalize, if_pos rfl]
  by_cases hr : r = i
  · rw [if_pos hr, if_neg (fun h => absurd h.1 (by rw [hr]; exact lt_irrefl i)), if_pos hr]
  · have hentry : (s.normalize i).entry r i = s.entry r i := by
      have h := congrArg (fun l => l.coefficient i) (line_normalize s i r)
      rw [if_neg hr] at h
      exact h
    rw [if_neg hr, if_neg hr, hentry]

end Arranged

end Pivotal.Elimination
