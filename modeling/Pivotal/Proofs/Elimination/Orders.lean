import Pivotal.Elimination.Numeric
import Pivotal.Proofs.Table

/-!
# What becomes of the two orders

Everything a run reads or writes is found through the row order and the column order, so nothing
else it does matters unless both stay permutations.  Only two operations touch them, and both
exchange two places: retiring an equation, in both orders, and choosing a pivot, in the row order.

* `Ordered t`: no row and no column of the caller stands in two places.  It holds from the start and
  through the scan for identity equations.
* `Settled t₀ t`: since the elimination began at `t₀`, nothing has moved but active rows.  Every part
  of a step keeps it, and so do the steps of a run together (`Settled.foldlM_step`).
-/

namespace Pivotal.Elimination

variable {α : Type u} {n : Nat}

/-- Going through places and keeping one of two each time ends at one of them. -/
theorem foldl_choose_mem {ι : Type*} (better : ι → ι → Bool) (js : List ι) (best : ι) :
    js.foldl (fun best j => if better j best then j else best) best ∈ best :: js := by
  induction js generalizing best with
  | nil => exact List.mem_cons_self
  | cons j js ih =>
    rw [List.foldl_cons]
    have hnext := ih (if better j best then j else best)
    rcases List.mem_cons.mp hnext with hhead | htail
    · rw [hhead]
      split
      · exact List.mem_cons_of_mem best List.mem_cons_self
      · exact List.mem_cons_self
    · exact List.mem_cons_of_mem best (List.mem_cons_of_mem j htail)

namespace Tableau

/-! ## Places -/

theorem mem_places {t : Tableau α n} {lo : Nat} {k : Fin n} :
    k ∈ t.places lo ↔ lo ≤ k.val ∧ k.val < t.active := by
  simp [places]

theorem pairwise_places (t : Tableau α n) (lo : Nat) : (t.places lo).Pairwise (· < ·) :=
  (List.pairwise_lt_finRange n).filter _

theorem bestRow_mem [Pivoting α] (t : Tableau α n) {i : Fin n} (hi : i.val < t.active) :
    i ≤ t.bestRow i ∧ (t.bestRow i).val < t.active := by
  have hmem := foldl_choose_mem (fun j best => outweighs (t.entry j i) (t.entry best i))
    (t.places (i.val + 1)) i
  rcases List.mem_cons.mp hmem with hhead | htail
  · unfold bestRow
    rw [hhead]
    exact ⟨le_rfl, hi⟩
  · obtain ⟨hlo, hact⟩ := mem_places.mp htail
    exact ⟨Nat.le_of_succ_le hlo, hact⟩

/-! ## Exchanges -/

def swapRows (t : Tableau α n) (i j : Fin n) : Tableau α n :=
  { t with rowOrder := t.rowOrder.swap i j i.isLt j.isLt }

def swapCols (t : Tableau α n) (i j : Fin n) : Tableau α n :=
  { t with colOrder := t.colOrder.swap i j i.isLt j.isLt }

@[simp] theorem rowAt_swapRows (t : Tableau α n) (i j k : Fin n) :
    (t.swapRows i j).rowAt k = t.rowAt (Equiv.swap i j k) :=
  get_swap t.rowOrder i j k

@[simp] theorem colAt_swapCols (t : Tableau α n) (i j k : Fin n) :
    (t.swapCols i j).colAt k = t.colAt (Equiv.swap i j k) :=
  get_swap t.colOrder i j k

theorem retire_eq (t : Tableau α n) (i last : Fin n) (hi : i.val < t.active)
    (hlast : last.val = t.active - 1) :
    t.retire i hi = { (t.swapRows i last).swapCols i last with
      active := t.active - 1
      active_le := (Nat.sub_le _ _).trans t.active_le } := by
  obtain ⟨last, hlt⟩ := last
  subst hlast
  rfl

/-- Whether or not the places differ, only the row order changes, and what is reported. -/
theorem exchange_eq (t : Tableau α n) (i best : Fin n) :
    ∃ notices, t.exchange i best = { t.swapRows i best with notices } := by
  unfold exchange
  by_cases hb : best = i
  · subst hb
    refine ⟨t.notices, ?_⟩
    have hsame : t.rowOrder.swap best best best.isLt best.isLt = t.rowOrder := by
      refine ext_get fun k => ?_
      rw [get_swap, Equiv.swap_self]
      rfl
    rw [if_pos rfl, swapRows, hsame]
  · exact ⟨_, if_neg hb⟩

/-! ## Orders without repetition -/

/-- No row and no column of the caller stands in two places. -/
structure Ordered (t : Tableau α n) : Prop where
  rows : Function.Injective t.rowAt
  cols : Function.Injective t.colAt

namespace Ordered

variable {t : Tableau α n}

theorem ofSystem (a : Table α n n) (b : Vector α n) : Ordered (Tableau.ofSystem a b) := by
  have hid : ∀ k : Fin n, (Vector.ofFn id).get k = k := fun k => Vector.get_ofFn id k
  constructor
  · intro i j hij
    rwa [rowAt, rowAt, Tableau.ofSystem, hid, hid] at hij
  · intro i j hij
    rwa [colAt, colAt, Tableau.ofSystem, hid, hid] at hij

theorem swapRows (h : Ordered t) (i j : Fin n) : Ordered (t.swapRows i j) where
  rows k l hkl := by
    rw [rowAt_swapRows, rowAt_swapRows] at hkl
    exact (Equiv.swap i j).injective (h.rows hkl)
  cols := h.cols

theorem swapCols (h : Ordered t) (i j : Fin n) : Ordered (t.swapCols i j) where
  rows := h.rows
  cols k l hkl := by
    rw [colAt_swapCols, colAt_swapCols] at hkl
    exact (Equiv.swap i j).injective (h.cols hkl)

theorem retire (h : Ordered t) {i : Nat} (hi : i < t.active) : Ordered (t.retire i hi) := by
  have hle := t.active_le
  let place : Fin n := ⟨i, by omega⟩
  let last : Fin n := ⟨t.active - 1, by omega⟩
  have hswapped := (h.swapRows place last).swapCols place last
  rw [t.retire_eq place last hi rfl]
  exact ⟨hswapped.rows, hswapped.cols⟩

theorem removeIdentities [Pivoting α] (h : Ordered t) (i removed : Nat) :
    Ordered (t.removeIdentities i removed).1 := by
  fun_induction Tableau.removeIdentities t i removed with
  | case1 t i removed hi place hid =>
    rename_i ih
    exact ih ⟨(h.retire hi).rows, (h.retire hi).cols⟩
  | case2 t i removed hi place hid =>
    rename_i ih
    exact ih h
  | case3 t i removed hi => exact h

theorem start [Pivoting α] (a : Table α n n) (b : Vector α n) (ignore : Bool) :
    Ordered (Tableau.start a b ignore) := by
  unfold Tableau.start
  cases ignore with
  | false => exact ofSystem a b
  | true => exact (ofSystem a b).removeIdentities 0 0

end Ordered

/-! ## Orders during the elimination -/

/-- Since the elimination began at `t₀`, nothing has moved but active rows. -/
structure Settled (t₀ t : Tableau α n) : Prop where
  ordered : Ordered t
  colOrder : t.colOrder = t₀.colOrder
  active : t.active = t₀.active
  behind : ∀ k : Fin n, t₀.active ≤ k.val → t.rowAt k = t₀.rowAt k

namespace Settled

variable {t₀ t t' : Tableau α n}

theorem refl (h : Ordered t) : Settled t t := ⟨h, rfl, rfl, fun _ _ => rfl⟩

/-- Writing to the buffers and reporting move nothing. -/
theorem write (h : Settled t₀ t) (coefficients : Table α n n) (terms : Vector α n)
    (notices : List Notice) : Settled t₀ { t with coefficients, terms, notices } :=
  ⟨⟨h.ordered.rows, h.ordered.cols⟩, h.colOrder, h.active, h.behind⟩

theorem swapRows (h : Settled t₀ t) {i j : Fin n} (hi : i.val < t₀.active)
    (hj : j.val < t₀.active) : Settled t₀ (t.swapRows i j) := by
  refine ⟨h.ordered.swapRows i j, h.colOrder, h.active, fun k hk => ?_⟩
  rw [rowAt_swapRows, Equiv.swap_apply_of_ne_of_ne (Fin.ne_of_val_ne (by omega))
    (Fin.ne_of_val_ne (by omega))]
  exact h.behind k hk

theorem exchange (h : Settled t₀ t) {i best : Fin n} (hi : i.val < t₀.active)
    (hbest : best.val < t₀.active) : Settled t₀ (t.exchange i best) := by
  obtain ⟨notices, heq⟩ := t.exchange_eq i best
  rw [heq]
  exact (h.swapRows hi hbest).write _ _ notices

theorem normalize [Div α] (h : Settled t₀ t) (i : Fin n) : Settled t₀ (t.normalize i) :=
  h.write _ _ _

theorem reduceRow [Sub α] [Mul α] [Pivoting α] (h : Settled t₀ t) (i j : Fin n) :
    Settled t₀ (t.reduceRow i j) := by
  unfold Tableau.reduceRow
  dsimp only
  split
  · exact h
  · exact h.write _ _ _

theorem reduceBelow [Sub α] [Mul α] [Pivoting α] (h : Settled t₀ t) (i : Fin n) :
    Settled t₀ (t.reduceBelow i) :=
  List.foldlRecOn _ _ h fun _ h' j _ => h'.reduceRow i j

theorem step [Sub α] [Mul α] [Div α] [Pivoting α] (h : Settled t₀ t) {i : Fin n}
    (hi : i.val < t₀.active) (hstep : t.step i = .ok t') : Settled t₀ t' := by
  unfold Tableau.step selectPivot at hstep
  dsimp only at hstep
  split at hstep
  · cases hstep
  · cases hstep
    have hbest := (t.bestRow_mem (h.active ▸ hi)).2
    rw [h.active] at hbest
    exact ((h.exchange hi hbest).normalize i).reduceBelow i

/-- A run through active places. -/
theorem foldlM_step [Sub α] [Mul α] [Div α] [Pivoting α] (h : Settled t₀ t) (is : List (Fin n))
    (his : ∀ i ∈ is, i.val < t₀.active) (hrun : is.foldlM Tableau.step t = .ok t') :
    Settled t₀ t' := by
  induction is generalizing t with
  | nil => cases hrun; exact h
  | cons i is ih =>
    rw [List.foldlM_cons] at hrun
    cases hi : t.step i with
    | error e => rw [hi] at hrun; cases hrun
    | ok s =>
      rw [hi] at hrun
      exact ih (h.step (his i List.mem_cons_self) hi) (fun j hj => his j (List.mem_cons_of_mem i hj))
        hrun

end Settled

end Tableau

end Pivotal.Elimination
