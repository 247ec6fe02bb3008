import Pivotal.Proofs.Elimination.Arranged

/-!
# Which equations are retired

The scan for identity equations moves equations and variables together, so that each place still
holds an equation with its own variable, and it leaves exactly the identity equations behind the
active block (`start_spec`).
-/

namespace Pivotal.Elimination

variable {α : Type u} {n : Nat}

/-- Equation `k` of the caller is an identity and identities are to be retired. -/
def isRetired [Pivoting α] (a : Table α n n) (b : Vector α n) (ignore : Bool) (k : Fin n) : Bool :=
  ignore && isIdentity a (b.get k) k k

theorem isIdentity_iff [Pivoting α] (a : Table α n n) (x : α) (r c : Fin n) :
    isIdentity a x r c = true ↔ isZero x = true ∧ (∀ j, isZero ((a.get r).get j) = true) ∧
      ∀ i, isZero ((a.get i).get c) = true := by
  unfold isIdentity
  rw [Bool.and_eq_true, Bool.and_eq_true, all_iff_get, all_iff_get, and_assoc]

namespace Arranged

/-- `s` is the caller's system, moved but otherwise unchanged. -/
structure Arranges (a : Table α n n) (b : Vector α n) (s : Arranged α n) : Prop where
  entry : ∀ i j, s.entry i j = (a.get (s.equations i)).get (s.unknowns j)
  term : ∀ i, s.term i = b.get (s.equations i)

variable {a : Table α n n} {b : Vector α n} {s : Arranged α n}

theorem Arranges.ofSystem (a : Table α n n) (b : Vector α n) : Arranges a b (ofSystem a b) :=
  ⟨fun _ _ => rfl, fun _ => rfl⟩

theorem Arranges.retire (h : Arranges a b s) (i : Nat) (hi : i < s.active) :
    Arranges a b (s.retire i hi) := by
  have hle := s.active_le
  let place : Fin n := ⟨i, by omega⟩
  let last : Fin n := ⟨s.active - 1, by omega⟩
  refine ⟨fun r c => ?_, fun r => ?_⟩
  · show ((s.swapRows place last).swapColumns place last).entry r c = _
    rw [entry_swapColumns, entry_swapRows]
    exact h.entry _ _
  · show (s.swapRows place last).term r = _
    rw [term_swapRows]
    exact h.term _

/-- Moving does not change which equations are identities. -/
theorem Arranges.isIdentity_eq [Pivoting α] (h : Arranges a b s) (i : Fin n) :
    isIdentity s.coefficients (s.term i) i i =
      isIdentity a (b.get (s.equations i)) (s.equations i) (s.unknowns i) := by
  rw [Bool.eq_iff_iff, isIdentity_iff, isIdentity_iff, h.term]
  have hentry : ∀ r c, (s.coefficients.get r).get c =
      (a.get (s.equations r)).get (s.unknowns c) := h.entry
  simp only [hentry]
  rw [s.unknowns.surjective.forall (p := fun c => isZero ((a.get (s.equations i)).get c) = true),
    s.equations.surjective.forall (p := fun r => isZero ((a.get r).get (s.unknowns i)) = true)]

/-- The scan has reached place `i`: no identity before it, nothing but identities behind the active
block. -/
structure Scanned [Pivoting α] (a : Table α n n) (b : Vector α n) (i : Nat) (s : Arranged α n) :
    Prop where
  arranges : Arranges a b s
  together : s.unknowns = s.equations
  kept : ∀ k : Fin n, k.val < i → k.val < s.active →
    isIdentity a (b.get (s.equations k)) (s.equations k) (s.equations k) = false
  retired : ∀ k : Fin n, s.active ≤ k.val →
    isIdentity a (b.get (s.equations k)) (s.equations k) (s.equations k) = true

theorem Scanned.retire [Pivoting α] {i : Nat} (h : Scanned a b i s) (hi : i < s.active)
    (hid : isIdentity s.coefficients (s.term ⟨i, lt_of_lt_of_le hi s.active_le⟩)
      ⟨i, lt_of_lt_of_le hi s.active_le⟩ ⟨i, lt_of_lt_of_le hi s.active_le⟩ = true) :
    Scanned a b i (s.retire i hi) := by
  have hle := s.active_le
  let place : Fin n := ⟨i, by omega⟩
  let last : Fin n := ⟨s.active - 1, by omega⟩
  have hlabel : ∀ k, (s.retire i hi).equations k = s.equations (Equiv.swap place last k) :=
    fun _ => rfl
  refine ⟨h.arranges.retire i hi, ?_, fun k hk hact => ?_, fun k hk => ?_⟩
  · show (Equiv.swap place last).trans s.unknowns = (Equiv.swap place last).trans s.equations
    rw [h.together]
  · -- Places before `i` are not part of the exchange.
    have hact' : k.val < s.active - 1 := hact
    have hp : k ≠ place := Fin.ne_of_val_ne (by show k.val ≠ i; omega)
    have hl : k ≠ last := Fin.ne_of_val_ne (by show k.val ≠ s.active - 1; omega)
    rw [hlabel, Equiv.swap_apply_of_ne_of_ne hp hl]
    exact h.kept k hk (by omega)
  · have hk' : s.active - 1 ≤ k.val := hk
    rw [hlabel]
    by_cases hl : k = last
    · rw [hl, Equiv.swap_apply_right]
      rw [h.arranges.isIdentity_eq, h.together] at hid
      exact hid
    · have hne : k.val ≠ s.active - 1 := fun e => hl (Fin.ext e)
      have hp : k ≠ place := Fin.ne_of_val_ne (by show k.val ≠ i; omega)
      rw [Equiv.swap_apply_of_ne_of_ne hp hl]
      exact h.retired k (by omega)

theorem Scanned.skip [Pivoting α] {i : Nat} (h : Scanned a b i s) (hi : i < s.active)
    (hid : isIdentity s.coefficients (s.term ⟨i, lt_of_lt_of_le hi s.active_le⟩)
      ⟨i, lt_of_lt_of_le hi s.active_le⟩ ⟨i, lt_of_lt_of_le hi s.active_le⟩ ≠ true) :
    Scanned a b (i + 1) s := by
  refine ⟨h.arranges, h.together, fun k hk hact => ?_, h.retired⟩
  by_cases hki : k.val < i
  · exact h.kept k hki hact
  · have hk' : k = ⟨i, lt_of_lt_of_le hi s.active_le⟩ := Fin.ext (by show k.val = i; omega)
    rw [← hk', h.arranges.isIdentity_eq, h.together] at hid
    exact Bool.eq_false_iff.mpr hid

theorem Scanned.run [Pivoting α] {i : Nat} (h : Scanned a b i s) :
    ∃ j, Scanned a b j (s.retireIdentities i) ∧ (s.retireIdentities i).active ≤ j := by
  fun_induction retireIdentities s i with
  | case1 s i hi place hid =>
    rename_i ih
    exact ih (h.retire hi hid)
  | case2 s i hi place hid =>
    rename_i ih
    exact ih (h.skip hi hid)
  | case3 s i hi => exact ⟨i, h, Nat.le_of_not_lt hi⟩

/-- A run starts from the caller's system with exactly the retired equations behind the active
block, each with its own variable. -/
theorem start_spec [Pivoting α] (a : Table α n n) (b : Vector α n) (ignore : Bool) :
    Arranges a b (start a b ignore) ∧ (start a b ignore).unknowns = (start a b ignore).equations ∧
      ∀ k : Fin n, isRetired a b ignore ((start a b ignore).equations k) = true ↔
        (start a b ignore).active ≤ k.val := by
  cases ignore with
  | false =>
    refine ⟨Arranges.ofSystem a b, rfl, fun k => ?_⟩
    show false = true ↔ n ≤ k.val
    simp
  | true =>
    have h0 : Scanned a b 0 (ofSystem a b) :=
      ⟨Arranges.ofSystem a b, rfl, fun k hk => absurd hk (Nat.not_lt_zero _),
        fun k hk => absurd k.isLt (Nat.not_lt.mpr hk)⟩
    obtain ⟨j, h, hj⟩ := h0.run
    refine ⟨h.arranges, h.together, fun k => ?_⟩
    show isIdentity a _ _ _ = true ↔ ((ofSystem a b).retireIdentities 0).active ≤ k.val
    constructor
    · intro hid
      by_contra hk
      have hfalse := h.kept k (by omega) (by omega)
      exact Bool.false_ne_true (hfalse.symm.trans hid)
    · exact h.retired k

end Arranged

end Pivotal.Elimination
