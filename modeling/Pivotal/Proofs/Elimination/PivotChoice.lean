import Pivotal.Proofs.Elimination.Magnitude
import Pivotal.Proofs.Elimination.Orders

/-!
# The pivot is the first of the heaviest entries

When magnitudes are linearly ordered, the search for a pivot cuts the rows it went through in two
(`IsMagnitude.foldl_split`).  So it ends at the first of the heaviest rows (`bestRow_isLeast`), and
if that row has a zero in the column, all of them have.  The main statement, at every step that a run
reaches, is `pivot_first_heaviest`.
-/

namespace Pivotal

variable {α : Type u} {L : Type v} [LinearOrder L]

namespace Elimination

variable {n : Nat}

namespace Tableau

/-- The places whose rows are searched for the pivot of column `i`: the active ones from `i` on. -/
def searched (t : Tableau α n) (i : Fin n) : Set (Fin n) := { j | i ≤ j ∧ j.val < t.active }

/-- The searched places whose entry in column `i` has the greatest magnitude. -/
def heaviest (mag : α → L) (t : Tableau α n) (i : Fin n) : Set (Fin n) :=
  { p ∈ t.searched i | ∀ j ∈ t.searched i, mag (t.entry j i) ≤ mag (t.entry p i) }

theorem mem_searched_iff {t : Tableau α n} {i : Fin n} (hi : i.val < t.active) (j : Fin n) :
    j ∈ t.searched i ↔ j ∈ i :: t.places (i.val + 1) := by
  rw [List.mem_cons, mem_places]
  constructor
  · rintro ⟨hij, hj⟩
    rcases hij.eq_or_lt with rfl | hlt
    · exact .inl rfl
    · exact .inr ⟨hlt, hj⟩
  · rintro (rfl | ⟨hlt, hj⟩)
    · exact ⟨le_rfl, hi⟩
    · exact ⟨Nat.le_of_succ_le hlt, hj⟩

theorem bestRow_isLeast [Zero α] [Pivoting α] {mag : α → L} (hmag : IsMagnitude mag)
    {t : Tableau α n} {i : Fin n} (hi : i.val < t.active) :
    IsLeast (t.heaviest mag i) (t.bestRow i) := by
  obtain ⟨r, before, after, hr, hsplit, hbefore, hafter⟩ :=
    hmag.foldl_split (fun j => t.entry j i) (t.places (i.val + 1)) i
  have hbest : t.bestRow i = r := hr
  have hmem : ∀ j, j ∈ t.searched i ↔ j ∈ before ∨ j = r ∨ j ∈ after := by
    intro j
    rw [mem_searched_iff hi, hsplit, List.mem_append, List.mem_cons]
  -- The places are searched in increasing order, so `before` holds those before `r`.
  have hsorted : (before ++ r :: after).Pairwise (· < ·) := by
    rw [← hsplit]
    exact List.pairwise_cons.mpr
      ⟨fun j hj => (mem_places.mp hj).1, t.pairwise_places (i.val + 1)⟩
  have hlater : ∀ j ∈ after, r < j :=
    (List.pairwise_cons.mp (List.pairwise_append.mp hsorted).2.1).1
  rw [hbest]
  refine ⟨⟨(hmem r).mpr (.inr (.inl rfl)), fun j hj => ?_⟩, fun p hp => ?_⟩
  · rw [← hr]
    exact hmag.le_foldl (fun j => t.entry j i) _ i ((mem_searched_iff hi j).mp hj)
  · rcases (hmem p).mp hp.1 with hp' | rfl | hp'
    · exact absurd (hp.2 r ((hmem r).mpr (.inr (.inl rfl)))) (not_le.mpr (hbefore p hp'))
    · exact le_rfl
    · exact (hlater p hp').le

/-- The heaviest entry is zero exactly if all entries are. -/
theorem entry_bestRow_eq_zero_iff [Zero α] [Pivoting α] {mag : α → L} (hmag : IsMagnitude mag)
    {t : Tableau α n} {i : Fin n} (hi : i.val < t.active) :
    t.entry (t.bestRow i) i = 0 ↔ ∀ j ∈ t.searched i, t.entry j i = 0 := by
  obtain ⟨hmem, hmax⟩ := (bestRow_isLeast hmag hi).1
  constructor
  · intro hzero j hj
    refine (hmag.minimal_iff _).mp fun y => (hmax j hj).trans ?_
    exact (hmag.minimal_iff _).mpr hzero y
  · intro hall
    exact hall _ hmem

/-- The elimination from `t₀` has done its steps before place `i`, which is one of its places, and
stands at `t`. -/
structure Reaches [Sub α] [Mul α] [Div α] [Pivoting α] (t₀ : Tableau α n) (i : Fin n)
    (t : Tableau α n) : Prop where
  place : i.val < t₀.active
  done : ((t₀.places 0).take i).foldlM step t₀ = .ok t

theorem Reaches.active [Sub α] [Mul α] [Div α] [Pivoting α] {t₀ t : Tableau α n} {i : Fin n}
    (h : Reaches t₀ i t) (h₀ : Ordered t₀) : t.active = t₀.active := by
  refine (Settled.foldlM_step (.refl h₀) _ (fun k hk => ?_) h.done).active
  exact (mem_places.mp (List.mem_of_mem_take hk)).2

/-- `t'` is `t` with the rows in places `i` and `p` exchanged; nothing else is changed, reports
apart. -/
structure Exchanged (t : Tableau α n) (i p : Fin n) (t' : Tableau α n) : Prop where
  here : t'.rowAt i = t.rowAt p
  there : t'.rowAt p = t.rowAt i
  elsewhere : ∀ k, k ≠ i → k ≠ p → t'.rowAt k = t.rowAt k
  coefficients : t'.coefficients = t.coefficients
  terms : t'.terms = t.terms
  colOrder : t'.colOrder = t.colOrder
  active : t'.active = t.active

theorem exchanged_exchange (t : Tableau α n) (i p : Fin n) : Exchanged t i p (t.exchange i p) := by
  obtain ⟨notices, heq⟩ := t.exchange_eq i p
  have hrow : ∀ k, (t.exchange i p).rowAt k = t.rowAt (Equiv.swap i p k) := by
    intro k
    rw [heq]
    exact rowAt_swapRows t i p k
  refine ⟨?_, ?_, fun k hi hp => ?_, ?_, ?_, ?_, ?_⟩
  · rw [hrow, Equiv.swap_apply_left]
  · rw [hrow, Equiv.swap_apply_right]
  · rw [hrow, Equiv.swap_apply_of_ne_of_ne hi hp]
  all_goals
    rw [heq]
    rfl

theorem selectPivot_cases [Pivoting α] (t : Tableau α n) (i : Fin n) :
    (isZero (t.entry (t.bestRow i) i) = true ∧
        t.selectPivot i = .error ⟨i, t.report (.noPivotForVariable (t.colAt i))⟩) ∨
      (isZero (t.entry (t.bestRow i) i) = false ∧
        t.selectPivot i = .ok (t.exchange i (t.bestRow i))) := by
  unfold selectPivot
  cases hz : isZero (t.entry (t.bestRow i) i) with
  | true => exact .inl ⟨rfl, by simp only [hz, if_true]⟩
  | false => exact .inr ⟨rfl, by simp only [hz, Bool.false_eq_true, if_false]⟩

end Tableau

open Tableau

/-- **The pivot is the first of the heaviest entries, at every step that a run reaches.**  The search
fails exactly if all searched entries are zero, and then it has only reported it.  Otherwise the
first, in the present order, of the rows whose entry in column `i` is heaviest comes to place `i`, in
exchange for the row that stood there, and nothing else changes. -/
theorem pivot_first_heaviest [Zero α] [Sub α] [Mul α] [Div α] [Pivoting α] {mag : α → L}
    (hmag : IsMagnitude mag) (a : Table α n n) (b : Vector α n) (ignore : Bool) {i : Fin n}
    {t : Tableau α n} (h : Reaches (Tableau.start a b ignore) i t) :
    t.active = (Tableau.start a b ignore).active ∧
      ((∃ e, t.selectPivot i = .error e) ↔ ∀ j ∈ t.searched i, t.entry j i = 0) ∧
      (∀ e, t.selectPivot i = .error e →
        e.row = i.val ∧ ∃ notices, e.tableau = { t with notices }) ∧
      ∀ t', t.selectPivot i = .ok t' →
        ∃ p, IsLeast (t.heaviest mag i) p ∧ Exchanged t i p t' := by
  have hactive := h.active (Ordered.start a b ignore)
  have hi : i.val < t.active := hactive ▸ h.place
  have hzero := entry_bestRow_eq_zero_iff hmag hi
  rw [← hmag.isZero_iff] at hzero
  refine ⟨hactive, ?_⟩
  rcases t.selectPivot_cases i with ⟨hz, herror⟩ | ⟨hz, hok⟩
  · rw [herror]
    refine ⟨⟨fun _ => hzero.mp hz, fun _ => ⟨_, rfl⟩⟩, ?_, fun t' ht' => (by cases ht')⟩
    intro e he
    cases he
    exact ⟨rfl, _, rfl⟩
  · rw [hok]
    refine ⟨⟨fun ⟨e, he⟩ => (by cases he), fun hall => ?_⟩, fun e he => (by cases he), ?_⟩
    · rw [hzero.mpr hall] at hz
      cases hz
    · intro t' ht'
      cases ht'
      exact ⟨t.bestRow i, bestRow_isLeast hmag hi, t.exchanged_exchange i _⟩

/-- Five equations after the first step.  Equation 3 says nothing and is retired; the first step has
brought equation 2 up, and in the next column equations 0 and 4 are of one magnitude. -/
def tied : Tableau ℤ 5 where
  coefficients := #v[#v[0, -3, 0, 0, 1], #v[0, 1, 1, 0, 0], #v[1, 1, 0, 0, 0], #v[0, 0, 0, 0, 0],
    #v[0, 3, 0, 0, 0]]
  terms := #v[1, 2, 3, 0, 4]
  rowOrder := #v[2, 1, 0, 4, 3]
  colOrder := #v[0, 1, 2, 4, 3]
  active := 4
  active_le := by decide
  notices := [.identityRetired 3, .pivotExchanged 0 2 0]

/-- Of the two equations the first in the present order is chosen: equation 0, in place 2. -/
theorem pivot_first_heaviest_tied :
    Reaches (Tableau.start #v[#v[(0 : ℤ), -3, 0, 0, 1], #v[0, 1, 1, 0, 0], #v[2, 2, 0, 0, 0],
        #v[0, 0, 0, 0, 0], #v[0, 3, 0, 0, 0]] #v[1, 2, 6, 0, 4] true) 1 tied ∧
      tied.selectPivot 1 = .ok (tied.exchange 1 2) ∧
      IsLeast (tied.heaviest Int.natAbs 1) 2 ∧ Exchanged tied 1 2 (tied.exchange 1 2) := by
  have hreaches : Reaches (Tableau.start #v[#v[(0 : ℤ), -3, 0, 0, 1], #v[0, 1, 1, 0, 0],
      #v[2, 2, 0, 0, 0], #v[0, 0, 0, 0, 0], #v[0, 3, 0, 0, 0]] #v[1, 2, 6, 0, 4] true) 1 tied :=
    ⟨by cbv, by cbv⟩
  have hpivot : tied.selectPivot 1 = .ok (tied.exchange 1 2) := by cbv
  obtain ⟨p, hleast, hexchanged⟩ :=
    (pivot_first_heaviest isMagnitude_natAbs _ _ true hreaches).2.2.2 _ hpivot
  have hplace : ∀ q, tied.rowAt q = 0 → q = 2 := by decide
  obtain rfl := hplace p hexchanged.here.symm
  exact ⟨hreaches, hpivot, hleast, hexchanged⟩

end Elimination

end Pivotal
