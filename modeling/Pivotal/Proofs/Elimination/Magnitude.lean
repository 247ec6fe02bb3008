import Mathlib
import Pivotal.Pivoting

/-!
# Scalars with a magnitude

The two questions that choose a pivot are exact when zero is recognised as zero and when one value
outweighs another exactly if it is larger in a magnitude that is least at zero and nowhere else.
Nothing else is asked of the scalars here, no law of their operations in particular.

The search for a pivot keeps the best place so far and gives it up for a strictly heavier one only.
So it cuts the places it went through in two: what comes before the place it ends at is lighter, what
comes after is not heavier (`IsMagnitude.foldl_split`).
-/

namespace Pivotal

section Scalars

variable {α : Type*} [Zero α] [Pivoting α] {L : Type*} [LinearOrder L]

/-- The zero test and the comparison are those of a magnitude that is minimal exactly at zero. -/
structure IsMagnitude (mag : α → L) : Prop where
  isZero_iff : ∀ x : α, isZero x = true ↔ x = 0
  outweighs_iff : ∀ x y : α, outweighs x y = true ↔ mag y < mag x
  minimal_iff : ∀ x : α, (∀ y, mag x ≤ mag y) ↔ x = 0

theorem le_of_split {ι : Type*} (weight : ι → L) {before after : List ι} {r : ι}
    (hbefore : ∀ j ∈ before, weight j < weight r) (hafter : ∀ j ∈ after, weight j ≤ weight r)
    {j : ι} (hj : j ∈ before ++ r :: after) : weight j ≤ weight r := by
  rcases List.mem_append.mp hj with hj | hj
  · exact (hbefore j hj).le
  · rcases List.mem_cons.mp hj with rfl | hj
    · exact le_rfl
    · exact hafter j hj

namespace IsMagnitude

variable {mag : α → L} (hmag : IsMagnitude mag) {ι : Type*} (value : ι → α)

include hmag

/-- The search goes through `best` and the places behind it in order, and ends at the first of the
heaviest. -/
theorem foldl_split (js : List ι) (best : ι) : ∃ r before after,
      js.foldl (fun best j => if outweighs (value j) (value best) then j else best) best = r ∧
      best :: js = before ++ r :: after ∧
      (∀ j ∈ before, mag (value j) < mag (value r)) ∧
      ∀ j ∈ after, mag (value j) ≤ mag (value r) := by
  induction js generalizing best with
  | nil => exact ⟨best, [], [], rfl, rfl, List.forall_mem_nil _, List.forall_mem_nil _⟩
  | cons j js ih =>
    rw [List.foldl_cons]
    by_cases ho : outweighs (value j) (value best) = true
    · -- `j` takes over: `best` joins what is lighter than the end.
      rw [if_pos ho]
      obtain ⟨r, before, after, hr, hsplit, hbefore, hafter⟩ := ih j
      refine ⟨r, best :: before, after, hr, by rw [hsplit, List.cons_append], ?_, hafter⟩
      have hj : mag (value j) ≤ mag (value r) :=
        le_of_split (fun j => mag (value j)) hbefore hafter (hsplit ▸ List.mem_cons_self)
      exact List.forall_mem_cons.mpr
        ⟨((hmag.outweighs_iff _ _).mp ho).trans_le hj, hbefore⟩
    · -- `best` stays: `j` is not heavier, wherever the search ends.
      rw [if_neg ho]
      have hj : mag (value j) ≤ mag (value best) :=
        not_lt.mp fun hlt => ho ((hmag.outweighs_iff _ _).mpr hlt)
      obtain ⟨r, before, after, hr, hsplit, hbefore, hafter⟩ := ih best
      cases before with
      | nil =>
        obtain ⟨rfl, rfl⟩ := List.cons.inj hsplit
        exact ⟨best, [], j :: js, hr, rfl, List.forall_mem_nil _,
          List.forall_mem_cons.mpr ⟨hj, hafter⟩⟩
      | cons b before =>
        obtain ⟨rfl, rfl⟩ := List.cons.inj hsplit
        obtain ⟨hb, hbefore'⟩ := List.forall_mem_cons.mp hbefore
        exact ⟨r, best :: j :: before, after, hr, rfl,
          List.forall_mem_cons.mpr ⟨hb, List.forall_mem_cons.mpr ⟨hj.trans_lt hb, hbefore'⟩⟩, hafter⟩

/-- The search ends at a place of greatest magnitude. -/
theorem le_foldl (js : List ι) (best : ι) {j : ι} (hj : j ∈ best :: js) :
    mag (value j) ≤ mag (value (js.foldl (fun best j =>
      if outweighs (value j) (value best) then j else best) best)) := by
  obtain ⟨r, before, after, hr, hsplit, hbefore, hafter⟩ := hmag.foldl_split value js best
  rw [hr]
  rw [hsplit] at hj
  exact le_of_split (fun j => mag (value j)) hbefore hafter hj

end IsMagnitude

end Scalars

/-! ## Numbers by their absolute value -/

instance : Pivoting ℚ where
  isZero x := x == 0
  outweighs x y := decide (|y| < |x|)

theorem isMagnitude_abs : IsMagnitude (fun x : ℚ => |x|) where
  isZero_iff _ := beq_iff_eq
  outweighs_iff _ _ := decide_eq_true_iff
  minimal_iff x := by
    refine ⟨fun h => ?_, fun h y => ?_⟩
    · have hx : |x| ≤ 0 := (h 0).trans_eq abs_zero
      exact abs_nonpos_iff.mp hx
    · rw [h, abs_zero]
      exact abs_nonneg y

/-- Whole numbers are no field, but they have a magnitude. -/
instance : Pivoting ℤ where
  isZero x := x == 0
  outweighs x y := decide (y.natAbs < x.natAbs)

theorem isMagnitude_natAbs : IsMagnitude Int.natAbs where
  isZero_iff _ := beq_iff_eq
  outweighs_iff _ _ := decide_eq_true_iff
  minimal_iff x := by
    refine ⟨fun h => ?_, fun h y => ?_⟩
    · exact Int.natAbs_eq_zero.mp (Nat.le_zero.mp (h 0))
    · rw [h]
      exact Nat.zero_le _

end Pivotal
