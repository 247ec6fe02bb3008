import Pivotal.Proofs.Elimination.Arranged

/-!
# Looking through orders is the same as moving

A `Tableau` never moves a row or a column; an `Arranged` system moves both.  `Shows t s` says that
`t`, looked at through its orders, is `s`: the same logical entries and free terms, and the orders
are the arrangements.  Every operation keeps it, whatever the scalars do, so both end alike.

    Shows t s → Alike … (t.step i) (s.step i)                        (Shows.step)
    Shows t s → t.coefficients = s.restored                          (Shows.coefficients_eq)
-/

namespace Pivotal.Elimination

variable {α : Type u} {n : Nat}

/-- `s` is what `t` shows through its orders. -/
structure Shows (t : Tableau α n) (s : Arranged α n) : Prop where
  rowAt : ∀ i, t.rowAt i = s.equations i
  colAt : ∀ j, t.colAt j = s.unknowns j
  active : t.active = s.active
  entry : ∀ i j, t.entry i j = s.entry i j
  term : ∀ i, t.term i = s.term i

namespace Shows

variable {t : Tableau α n} {s : Arranged α n}

theorem ofSystem (a : Table α n n) (b : Vector α n) :
    Shows (Tableau.ofSystem a b) (Arranged.ofSystem a b) := by
  have hid : ∀ i : Fin n, (Vector.ofFn id).get i = i := fun i => Vector.get_ofFn id i
  refine ⟨hid, hid, rfl, fun i j => ?_, fun i => ?_⟩
  · show (a.get ((Vector.ofFn id).get i)).get ((Vector.ofFn id).get j) = (a.get i).get j
    rw [hid, hid]
  · show b.get ((Vector.ofFn id).get i) = b.get i
    rw [hid]

theorem rowAt_injective (h : Shows t s) : Function.Injective t.rowAt := by
  intro i j hij
  rw [h.rowAt, h.rowAt] at hij
  exact s.equations.injective hij

theorem colAt_injective (h : Shows t s) : Function.Injective t.colAt := by
  intro i j hij
  rw [h.colAt, h.colAt] at hij
  exact s.unknowns.injective hij

theorem places (h : Shows t s) (lo : Nat) : t.places lo = s.places lo := by
  unfold Tableau.places Arranged.places
  rw [h.active]

/-- The caller's table is the moved one with both arrangements undone. -/
theorem coefficients_eq (h : Shows t s) : t.coefficients = s.restored := by
  refine ext_get fun r => ext_get fun c => ?_
  rw [Arranged.get_restored, ← h.entry]
  show _ = (t.coefficients.get (t.rowAt (s.equations.symm r))).get (t.colAt (s.unknowns.symm c))
  rw [h.rowAt, h.colAt, Equiv.apply_symm_apply, Equiv.apply_symm_apply]

/-! ## Writing one row -/

/-- A row of the caller's table seen through the column order. -/
def RowShows (t : Tableau α n) (row row' : Vector α n) : Prop :=
  ∀ j, row.get (t.colAt j) = row'.get j

theorem rowShows (h : Shows t s) (i : Fin n) :
    RowShows t (t.coefficients.get (t.rowAt i)) (s.coefficients.get i) :=
  fun j => h.entry i j

theorem rowShows_put (h : Shows t s) {row row' : Vector α n} (hrow : RowShows t row row')
    (k : Fin n) (x : α) : RowShows t (put row (t.colAt k) x) (put row' k x) := by
  intro j
  rw [get_put, get_put]
  by_cases hj : j = k
  · rw [if_pos (congrArg t.colAt hj), if_pos hj]
  · rw [if_neg (fun e => hj (h.colAt_injective e)), if_neg hj]
    exact hrow j

/-- Writes a whole row with its free term on both sides. -/
theorem write (h : Shows t s) (i : Fin n) {row row' : Vector α n} (hrow : RowShows t row row')
    (x : α) :
    Shows { t with
        coefficients := put t.coefficients (t.rowAt i) row, terms := put t.terms (t.rowAt i) x }
      { s with coefficients := put s.coefficients i row', terms := put s.terms i x } := by
  refine ⟨h.rowAt, h.colAt, h.active, fun r c => ?_, fun r => ?_⟩
  · show ((put t.coefficients (t.rowAt i) row).get (t.rowAt r)).get (t.colAt c) =
      ((put s.coefficients i row').get r).get c
    rw [get_put, get_put]
    by_cases hr : r = i
    · rw [if_pos (congrArg t.rowAt hr), if_pos hr]
      exact hrow c
    · rw [if_neg (fun e => hr (h.rowAt_injective e)), if_neg hr]
      exact h.entry r c
  · show (put t.terms (t.rowAt i) x).get (t.rowAt r) = (put s.terms i x).get r
    rw [get_put, get_put]
    by_cases hr : r = i
    · rw [if_pos (congrArg t.rowAt hr), if_pos hr]
    · rw [if_neg (fun e => hr (h.rowAt_injective e)), if_neg hr]
      exact h.term r

/-! ## Retiring -/

theorem isIdentityAt [Pivoting α] (h : Shows t s) (i : Fin n) :
    t.isIdentityAt i = isIdentity s.coefficients (s.term i) i i := by
  -- Row and column are read whole, so the order in which they are read does not matter.
  have hrow : (t.coefficients.get (t.rowAt i)).all isZero = (s.coefficients.get i).all isZero := by
    rw [Bool.eq_iff_iff, all_iff_get, all_iff_get]
    constructor
    · intro hz j
      rw [← h.rowShows i j]
      exact hz (t.colAt j)
    · intro hz c
      have hc := hz (s.unknowns.symm c)
      rwa [← h.rowShows i, h.colAt, Equiv.apply_symm_apply] at hc
  have hcol : (t.coefficients.all fun r => isZero (r.get (t.colAt i))) =
      s.coefficients.all fun r => isZero (r.get i) := by
    rw [Bool.eq_iff_iff, all_iff_get, all_iff_get]
    constructor
    · intro hz r
      rw [← h.rowShows r i]
      exact hz (t.rowAt r)
    · intro hz r
      have hr := hz (s.equations.symm r)
      rwa [← h.rowShows _ i, h.rowAt, Equiv.apply_symm_apply] at hr
  unfold Tableau.isIdentityAt isIdentity
  rw [h.term, hrow, hcol]

theorem report (h : Shows t s) (e : Notice) : Shows (t.report e) s :=
  ⟨h.rowAt, h.colAt, h.active, h.entry, h.term⟩

theorem retire (h : Shows t s) (i : Nat) (hi : i < t.active) (hi' : i < s.active) :
    Shows (t.retire i hi) (s.retire i hi') := by
  have hle := s.active_le
  have hlast : t.active - 1 = s.active - 1 := by rw [h.active]
  let place : Fin n := ⟨i, by omega⟩
  let last : Fin n := ⟨s.active - 1, by omega⟩
  have hrow : ∀ r, (t.retire i hi).rowAt r = t.rowAt (Equiv.swap place last r) := by
    intro r
    show (t.rowOrder.swap i (t.active - 1) (by omega) (by omega)).get r = _
    simp only [hlast]
    exact get_swap t.rowOrder place last r
  have hcol : ∀ c, (t.retire i hi).colAt c = t.colAt (Equiv.swap place last c) := by
    intro c
    show (t.colOrder.swap i (t.active - 1) (by omega) (by omega)).get c = _
    simp only [hlast]
    exact get_swap t.colOrder place last c
  refine ⟨fun r => ?_, fun c => ?_, hlast, fun r c => ?_, fun r => ?_⟩
  · rw [hrow, h.rowAt]
    rfl
  · rw [hcol, h.colAt]
    rfl
  · show (t.coefficients.get ((t.retire i hi).rowAt r)).get ((t.retire i hi).colAt c) =
      ((s.swapRows place last).swapColumns place last).entry r c
    rw [hrow, hcol, Arranged.entry_swapColumns, Arranged.entry_swapRows]
    exact h.entry _ _
  · show t.terms.get ((t.retire i hi).rowAt r) = (s.swapRows place last).term r
    rw [hrow, Arranged.term_swapRows]
    exact h.term _

theorem removeIdentities [Pivoting α] (h : Shows t s) (i removed : Nat) :
    Shows (t.removeIdentities i removed).1 (s.retireIdentities i) := by
  fun_induction Tableau.removeIdentities t i removed generalizing s with
  | case1 t i removed hi place hid =>
    rename_i ih
    have hi' : i < s.active := h.active ▸ hi
    rw [Arranged.retireIdentities, dif_pos hi']
    rw [h.isIdentityAt] at hid
    show Shows _ (if isIdentity s.coefficients (s.term place) place place = true then _ else _)
    rw [if_pos hid]
    exact ih ((h.retire i hi hi').report _)
  | case2 t i removed hi place hid =>
    rename_i ih
    have hi' : i < s.active := h.active ▸ hi
    rw [Arranged.retireIdentities, dif_pos hi']
    rw [h.isIdentityAt] at hid
    show Shows _ (if isIdentity s.coefficients (s.term place) place place = true then _ else _)
    rw [if_neg hid]
    exact ih h
  | case3 t i removed hi =>
    rw [Arranged.retireIdentities, dif_neg (h.active ▸ hi)]
    exact h

theorem start [Pivoting α] (a : Table α n n) (b : Vector α n) (ignore : Bool) :
    Shows (Tableau.start a b ignore) (Arranged.start a b ignore) := by
  unfold Tableau.start Arranged.start
  cases ignore with
  | false => exact ofSystem a b
  | true => exact (ofSystem a b).removeIdentities 0 0

/-! ## Forward elimination -/

theorem bestRow [Pivoting α] (h : Shows t s) (i : Fin n) : t.bestRow i = s.bestRow i := by
  unfold Tableau.bestRow Arranged.bestRow
  rw [h.places]
  simp only [h.entry]

theorem exchange (h : Shows t s) (i best : Fin n) :
    Shows (t.exchange i best) (s.swapRows i best) := by
  have hrow : ∀ r, (t.exchange i best).rowAt r = t.rowAt (Equiv.swap i best r) := by
    intro r
    unfold Tableau.exchange
    by_cases hb : best = i
    · rw [if_pos hb, hb, Equiv.swap_self]
      rfl
    · rw [if_neg hb]
      exact get_swap t.rowOrder i best r
  -- Whether or not the places differ, only the row order changes.
  have hsame : (t.exchange i best).coefficients = t.coefficients ∧
      (t.exchange i best).terms = t.terms ∧ (t.exchange i best).colOrder = t.colOrder ∧
      (t.exchange i best).active = t.active := by
    unfold Tableau.exchange
    split
    · exact ⟨rfl, rfl, rfl, rfl⟩
    · exact ⟨rfl, rfl, rfl, rfl⟩
  obtain ⟨hc, ht, ho, ha⟩ := hsame
  have hcol : ∀ c, (t.exchange i best).colAt c = t.colAt c := by
    intro c
    unfold Tableau.colAt
    rw [ho]
  refine ⟨fun r => ?_, fun c => ?_, ha.trans h.active, fun r c => ?_, fun r => ?_⟩
  · rw [hrow, h.rowAt]
    rfl
  · rw [hcol]
    exact h.colAt c
  · unfold Tableau.entry
    rw [hc, hrow, hcol, Arranged.entry_swapRows]
    exact h.entry _ c
  · unfold Tableau.term
    rw [ht, hrow, Arranged.term_swapRows]
    exact h.term _

theorem normalize [Div α] (h : Shows t s) (i : Fin n) : Shows (t.normalize i) (s.normalize i) := by
  unfold Tableau.normalize Arranged.normalize
  simp only [h.entry, h.places]
  have hterm : t.terms.get (t.rowAt i) = s.term i := h.term i
  rw [hterm]
  refine h.write i ?_ _
  refine List.foldl_rel (r := RowShows t) (h.rowShows i) fun k _ row row' hrow => ?_
  rw [hrow k]
  exact h.rowShows_put hrow k _

theorem reduceRow [Sub α] [Mul α] [Pivoting α] (h : Shows t s) (i j : Fin n) :
    Shows (t.reduceRow i j) (s.reduceRow i j) := by
  unfold Tableau.reduceRow Arranged.reduceRow
  simp only [h.entry, h.places, h.term]
  by_cases hz : isZero (s.entry j i) = true
  · rw [if_pos hz, if_pos hz]
    exact h
  · rw [if_neg hz, if_neg hz]
    have hterm : t.terms.get (t.rowAt j) = s.term j := h.term j
    rw [hterm]
    refine h.write j ?_ _
    refine List.foldl_rel (r := RowShows t) (h.rowShows j) fun k _ row row' hrow => ?_
    have hsource : (t.coefficients.get (t.rowAt i)).get (t.colAt k) = s.entry i k := h.entry i k
    rw [hrow k, hsource]
    exact h.rowShows_put hrow k _

theorem reduceBelow [Sub α] [Mul α] [Pivoting α] (h : Shows t s) (i : Fin n) :
    Shows (t.reduceBelow i) (s.reduceBelow i) := by
  unfold Tableau.reduceBelow Arranged.reduceBelow
  rw [h.places]
  exact List.foldl_rel (r := Shows) h fun j _ _ _ h => h.reduceRow i j

/-- A run of the tableau that breaks off does so at the same step, showing the same system. -/
def BreaksAlike (b : Tableau.Breakdown α n) (e : Nat × Arranged α n) : Prop :=
  b.row = e.1 ∧ Shows b.tableau e.2

theorem step [Sub α] [Mul α] [Div α] [Pivoting α] (h : Shows t s) (i : Fin n) :
    Alike BreaksAlike Shows (t.step i) (s.step i) := by
  unfold Tableau.step Tableau.selectPivot Arranged.step
  simp only [h.bestRow, h.entry]
  by_cases hz : isZero (s.entry (s.bestRow i) i) = true
  · rw [if_pos hz, if_pos hz]
    exact .error ⟨rfl, h.report _⟩
  · rw [if_neg hz, if_neg hz]
    exact .ok (((h.exchange i _).normalize i).reduceBelow i)

theorem eliminate [Sub α] [Mul α] [Div α] [Pivoting α] (h : Shows t s) :
    Alike BreaksAlike Shows t.eliminate s.eliminate := by
  unfold Tableau.eliminate Arranged.eliminate
  rw [h.places]
  exact Alike.foldlM (fun i _ _ _ h => h.step i) h

/-! ## Back substitution -/

theorem discharge [Sub α] [Mul α] (h : Shows t s) (i j : Fin n) (solved : α) :
    Shows (t.discharge i j solved)
      { s with terms := put s.terms j (s.term j - s.entry j i * solved) } := by
  unfold Tableau.discharge
  rw [h.term, h.entry]
  refine ⟨h.rowAt, h.colAt, h.active, h.entry, fun r => ?_⟩
  show (put t.terms (t.rowAt j) _).get (t.rowAt r) = (put s.terms j _).get r
  rw [get_put, get_put]
  by_cases hr : r = j
  · rw [if_pos (congrArg t.rowAt hr), if_pos hr]
  · rw [if_neg (fun e => hr (h.rowAt_injective e)), if_neg hr]
    exact h.term r

theorem dischargeAbove [Sub α] [Mul α] (h : Shows t s) (i : Fin n) :
    Shows (t.dischargeAbove i) (s.dischargeAbove i) := by
  unfold Tableau.dischargeAbove Arranged.dischargeAbove
  rw [h.term]
  exact List.foldl_rel (r := Shows) h fun j _ _ _ h => h.discharge i j _

theorem substituteBack [Sub α] [Mul α] (h : Shows t s) :
    Shows t.substituteBack s.substituteBack := by
  unfold Tableau.substituteBack Arranged.substituteBack
  rw [h.places]
  exact List.foldl_rel (r := Shows) h fun i _ _ _ h => h.dischargeAbove i

theorem scatter [Zero α] (h : Shows t s) : t.scatter = s.scatter := by
  unfold Tableau.scatter Arranged.scatter
  rw [h.places]
  simp only [h.colAt, h.term]

end Shows

end Pivotal.Elimination
