import Mathlib.Algebra.Group.Nat.Defs
import Pivotal.Decimal.Shortest

/-!
# Decimals that read back

The nearest double to a quotient depends on the quotient only (`nearest_mul_left`), and is the double
itself where the quotient is one (`nearest_of_quanta`).  So zeros at the end of a decimal make no
difference (`pattern_mul_pow`, `pattern_trim`), and the shortest decimal of a finite pattern reads as
that pattern (`pattern_shortest`): each candidate of the search was tried, and the digits written out
in full, which are used if none succeeds, are exact (`pattern_allDigits`).
-/

namespace Pivotal.Decimal

/-! ## Rounding -/

theorem roundDiv_mul_left {c : Nat} (hc : 0 < c) (num den : Nat) :
    roundDiv (c * num) (c * den) = roundDiv num den := by
  have hlt : c * den < 2 * (c * (num % den)) ↔ den < 2 * (num % den) := by
    rw [Nat.mul_left_comm]
    exact Nat.mul_lt_mul_left hc
  have heq : 2 * (c * (num % den)) = c * den ↔ 2 * (num % den) = den := by
    rw [Nat.mul_left_comm]
    exact Nat.mul_right_inj (Nat.ne_of_gt hc)
  unfold roundDiv
  simp only [Nat.mul_div_mul_left _ _ hc, Nat.mul_mod_mul_left, hlt, heq]

theorem roundDiv_mul_self (n : Nat) {c : Nat} (hc : 0 < c) : roundDiv (n * c) c = n := by
  unfold roundDiv
  dsimp only
  rw [Nat.mul_mod_left, Nat.mul_div_cancel _ hc, if_neg (by omega)]

theorem nearest_mul_left {c : Nat} (hc : 0 < c) (num den : Nat) :
    nearest (c * num) (c * den) = nearest num den := by
  unfold nearest
  dsimp only
  rw [Nat.mul_assoc, Nat.mul_assoc, Nat.mul_div_mul_left _ _ hc, roundDiv_mul_left hc]

theorem binades_add {p : Nat} (h : p / binade ≠ 0) :
    (p / binade - 1) * binade + (p % binade + binade) = p := by
  have hstep : (p / binade - 1) * binade + binade = p / binade * binade := by
    rw [← Nat.succ_mul, Nat.succ_eq_add_one, Nat.sub_add_cancel (Nat.pos_of_ne_zero h)]
  rw [Nat.add_comm (p % binade), ← Nat.add_assoc, hstep, Nat.div_add_mod']

theorem log2_of_lt_binade {p : Nat} (hp : p < binade) : p.log2 - 52 = 0 := by
  rcases Nat.eq_zero_or_pos p with rfl | hpos
  · rfl
  · have hlt : p.log2 < 52 := (Nat.log2_lt (Nat.ne_of_gt hpos)).mpr hp
    omega

theorem log2_binade_mul {m k : Nat} (hle : binade ≤ m) (hlt : m < 2 * binade) :
    (m * Nat.pow 2 k).log2 - 52 = k := by
  have hpow : 0 < Nat.pow 2 k := Nat.two_pow_pos k
  have hpos : 0 < m := Nat.lt_of_lt_of_le (by decide) hle
  have hne : m * Nat.pow 2 k ≠ 0 := Nat.mul_ne_zero (Nat.ne_of_gt hpos) (Nat.ne_of_gt hpow)
  have hlow : 52 + k ≤ (m * Nat.pow 2 k).log2 := by
    rw [Nat.le_log2 hne, Nat.pow_add]
    exact Nat.mul_le_mul_right _ hle
  have hhigh : (m * Nat.pow 2 k).log2 < 53 + k := by
    rw [Nat.log2_lt hne, Nat.pow_add]
    exact Nat.mul_lt_mul_of_pos_right hlt hpow
  omega

/-- A quotient that is a double rounds to it. -/
theorem nearest_of_quanta {p num den : Nat} (hp : p < infinityPattern) (hden : 0 < den)
    (h : num * quantaPerUnit = quanta p * den) : nearest num den = p := by
  unfold nearest
  dsimp only
  rw [h, Nat.mul_div_cancel _ hden]
  unfold quanta
  dsimp only
  split
  · next hfield =>
    -- below the first binade the pattern counts the quanta
    have hlow : p < binade := by
      rcases Nat.div_eq_zero_iff.mp hfield with h0 | hlt
      · exact absurd h0 (by decide)
      · exact hlt
    have hmod : p % binade = p := Nat.mod_eq_of_lt hlow
    have hone : den * Nat.pow 2 0 = den := Nat.mul_one den
    rw [hmod, log2_of_lt_binade hlow, hone, roundDiv_mul_self p hden, Nat.zero_mul, Nat.zero_add]
    exact Nat.min_eq_left (Nat.le_of_lt hp)
  · next hfield =>
    have hmod : p % binade < binade := Nat.mod_lt p (by decide)
    have hlog : ((p % binade + binade) * Nat.pow 2 (p / binade - 1)).log2 - 52 = p / binade - 1 :=
      log2_binade_mul (Nat.le_add_left _ _) (by omega)
    have hround : roundDiv ((p % binade + binade) * Nat.pow 2 (p / binade - 1) * den)
        (den * Nat.pow 2 (p / binade - 1)) = p % binade + binade := by
      rw [Nat.mul_assoc, Nat.mul_comm (Nat.pow 2 _)]
      exact roundDiv_mul_self _ (Nat.mul_pos hden (Nat.two_pow_pos _))
    rw [hlog, hround, binades_add hfield]
    exact Nat.min_eq_left (Nat.le_of_lt hp)

/-! ## Zeros at the end -/

theorem decimalLength_mul_ten {n : Nat} (hn : n ≠ 0) :
    decimalLength (10 * n) = decimalLength n + 1 := by
  have hne : 10 * n ≠ 0 := by omega
  have happend := Nat.toDigits_append_toDigits (d := 0) (by decide : 1 < 10) (Nat.pos_of_ne_zero hn)
    (by decide)
  rw [Nat.add_zero] at happend
  unfold decimalLength
  rw [if_neg hne, if_neg hn, ← happend, List.length_append, Nat.toDigits_zero, List.length_singleton]

theorem powerOfTen_succ {e : Int} (he : 0 ≤ e) : powerOfTen (e + 1) = 10 * powerOfTen e := by
  unfold powerOfTen
  rw [Int.toNat_add he (by decide)]
  exact Nat.pow_add_one'

theorem powerOfTen_of_nonpos {e : Int} (he : e ≤ 0) : powerOfTen e = 1 := by
  unfold powerOfTen
  rw [Int.toNat_of_nonpos he]

theorem pattern_mul_ten (n : Nat) (e : Int) : pattern ⟨10 * n, e⟩ = pattern ⟨n, e + 1⟩ := by
  unfold pattern
  dsimp only
  by_cases hn : n = 0
  · rw [if_pos hn, if_pos (by omega)]
  · have htop : e + ((decimalLength n + 1 : Nat) : Int) = e + 1 + decimalLength n := by
      rw [Int.natCast_succ, Int.add_assoc, Int.add_comm 1]
    have hnearest : nearest (10 * n * powerOfTen e) (powerOfTen (-e)) =
        nearest (n * powerOfTen (e + 1)) (powerOfTen (-(e + 1))) := by
      by_cases he : 0 ≤ e
      · rw [powerOfTen_succ he, powerOfTen_of_nonpos (by omega : -e ≤ 0),
          powerOfTen_of_nonpos (by omega : -(e + 1) ≤ 0), Nat.mul_comm 10 n, Nat.mul_assoc]
      · have hstep : powerOfTen (-e) = 10 * powerOfTen (-(e + 1)) := by
          rw [← powerOfTen_succ (by omega), Int.neg_add, Int.neg_add_cancel_right]
        rw [powerOfTen_of_nonpos (by omega : e ≤ 0), powerOfTen_of_nonpos (by omega : e + 1 ≤ 0),
          hstep, Nat.mul_one, Nat.mul_one, nearest_mul_left (by decide)]
    rw [if_neg hn, if_neg (by omega), decimalLength_mul_ten hn, htop, hnearest]

theorem pattern_mul_pow (n k : Nat) (e : Int) : pattern ⟨n * 10 ^ k, e⟩ = pattern ⟨n, e + k⟩ := by
  induction k generalizing e with
  | zero => rw [Nat.pow_zero, Nat.mul_one, Int.natCast_zero, Int.add_zero]
  | succ k ih =>
    rw [Nat.pow_succ, ← Nat.mul_assoc, Nat.mul_comm _ 10, pattern_mul_ten, ih, Int.natCast_succ,
      Int.add_assoc, Int.add_comm 1]

theorem pattern_trimUpTo (fuel : Nat) (d : Decimal) : (trimUpTo fuel d).pattern = d.pattern := by
  induction fuel generalizing d with
  | zero => rfl
  | succ fuel ih =>
    unfold trimUpTo
    split
    · next h =>
      have hten : 10 * (d.digits / 10) = d.digits := Nat.mul_div_cancel' (Nat.dvd_of_mod_eq_zero h.1)
      rw [ih, ← pattern_mul_ten, hten]
    · rfl

theorem pattern_trim (d : Decimal) : d.trim.pattern = d.pattern := pattern_trimUpTo _ d

/-! ## The digits in full -/

theorem quanta_pos {p : Nat} (hp : 0 < p) : 0 < quanta p := by
  unfold quanta
  dsimp only
  split
  · next hfield =>
    rcases Nat.div_eq_zero_iff.mp hfield with h0 | hlt
    · exact absurd h0 (by decide)
    · rwa [Nat.mod_eq_of_lt hlt]
  · exact Nat.mul_pos (Nat.add_pos_right _ (by decide)) (Nat.two_pow_pos _)

theorem quanta_lt (p : Nat) : quanta p < 2 ^ (52 + p / binade) := by
  have hmod := Nat.mod_lt p (by decide : 0 < binade)
  unfold quanta
  dsimp only
  split
  · next hfield =>
    rw [hfield]
    exact hmod
  · next hfield =>
    have hsignificand : p % binade + binade < 2 ^ 53 := by
      change p % binade + binade < 2 * binade
      omega
    have hpos := Nat.pos_of_ne_zero hfield
    have hexponent : 52 + p / binade = 53 + (p / binade - 1) := by omega
    rw [hexponent, Nat.pow_add]
    exact Nat.mul_lt_mul_of_pos_right hsignificand (Nat.two_pow_pos _)

theorem quanta_le {p : Nat} (hp : p < infinityPattern) : quanta p ≤ 2 ^ 2098 := by
  have hfield : p / binade < 2047 := (Nat.div_lt_iff_lt_mul (by decide)).mpr hp
  have hpower : ∀ k, 52 + p / binade ≤ k → quanta p ≤ 2 ^ k := fun k hk =>
    Nat.le_trans (Nat.le_of_lt (quanta_lt p)) (Nat.pow_le_pow_right (by decide) hk)
  exact hpower 2098 (by omega)

theorem decimalLength_le_iff {n k : Nat} (hn : n ≠ 0) (hk : 0 < k) :
    decimalLength n ≤ k ↔ n < 10 ^ k := by
  unfold decimalLength
  rw [if_neg hn]
  exact Nat.length_toDigits_le_iff (by decide) hk

/-- Between the two early answers a decimal is rounded. -/
theorem pattern_eq_nearest {d : Decimal} (hd : d.digits ≠ 0)
    (hhigh : d.exponent + decimalLength d.digits ≤ 310)
    (hlow : -330 ≤ d.exponent + decimalLength d.digits) :
    d.pattern = nearest (d.digits * powerOfTen d.exponent) (powerOfTen (-d.exponent)) := by
  unfold pattern
  dsimp only
  rw [if_neg hd, if_neg (Int.not_lt.mpr hhigh), if_neg (Int.not_lt.mpr hlow)]

theorem powerOfTen_pos (e : Int) : 0 < powerOfTen e := Nat.pow_pos (by decide)

/-- `q · 5 ^ k · 10 ^ -k` is `q · 2 ^ -k`. -/
theorem mul_five_pow (q k : Nat) : q * Nat.pow 5 k * powerOfTen (-(k : Int)) * Nat.pow 2 k =
    q * powerOfTen (-(-(k : Int))) := by
  rw [powerOfTen_of_nonpos (by omega), Int.neg_neg, Nat.mul_one, Nat.mul_assoc]
  exact congrArg (q * ·) (Nat.mul_pow 5 2 k).symm

theorem allDigits_pos {p : Nat} (hpos : 0 < p) : 0 < (allDigits p).digits := by
  unfold allDigits
  refine Nat.mul_pos (quanta_pos hpos) ?_
  generalize 1074 = k
  exact Nat.pow_pos (by decide)

theorem lt_decimalLength_allDigits {p : Nat} (hpos : 0 < p) :
    743 < decimalLength (allDigits p).digits := by
  have hpower : 10 ^ 743 ≤ Nat.pow 5 1074 := by decide +kernel
  rw [← Nat.not_le, decimalLength_le_iff (Nat.ne_of_gt (allDigits_pos hpos)) (by decide), Nat.not_lt]
  exact Nat.le_trans hpower (Nat.le_mul_of_pos_left _ (quanta_pos hpos))

theorem decimalLength_allDigits_le {p : Nat} (hpos : 0 < p) (hp : p < infinityPattern) :
    decimalLength (allDigits p).digits ≤ 1384 := by
  have hpower : 2 ^ 2098 * Nat.pow 5 1074 < 10 ^ 1384 := by decide +kernel
  rw [decimalLength_le_iff (Nat.ne_of_gt (allDigits_pos hpos)) (by decide)]
  exact Nat.lt_of_le_of_lt (Nat.mul_le_mul_right _ (quanta_le hp)) hpower

/-- The digits of a double in full, as many as a thousand, read as the double. -/
theorem pattern_allDigits {p : Nat} (hpos : 0 < p) (hp : p < infinityPattern) :
    (allDigits p).pattern = p := by
  have hlow := lt_decimalLength_allDigits hpos
  have hhigh := decimalLength_allDigits_le hpos hp
  have hexponent : (allDigits p).exponent = -((1074 : Nat) : Int) := rfl
  rw [pattern_eq_nearest (Nat.ne_of_gt (allDigits_pos hpos)) (by omega) (by omega)]
  refine nearest_of_quanta hp (powerOfTen_pos _) ?_
  rw [hexponent]
  unfold allDigits quantaPerUnit
  generalize 1074 = k
  exact mul_five_pow (quanta p) k

/-! ## The shortest decimal -/

theorem pattern_onGrid {p : Nat} {e : Int} {d : Decimal} (h : onGrid p e = some d) :
    d.pattern = p := by
  unfold onGrid at h
  dsimp only at h
  split at h
  · next hlow =>
    split at h
    · next hhigh =>
      cases h
      exact hhigh.1
    · cases h
      exact hlow
  · split at h
    · next hhigh =>
      cases h
      exact hhigh
    · cases h

/-- **The shortest decimal reads back.** -/
theorem pattern_shortest {p : Nat} (hp : p < infinityPattern) : (shortest p).pattern = p := by
  unfold shortest
  split
  · next h =>
    rw [h]
    rfl
  · next h =>
    dsimp only
    rw [pattern_trim]
    cases hfind : (List.range 17).findSome? fun k : Nat =>
        onGrid p (leadingExponent (quanta p) - k) with
    | none => exact pattern_allDigits (Nat.pos_of_ne_zero h) hp
    | some d =>
      obtain ⟨k, -, hgrid⟩ := List.exists_of_findSome?_eq_some hfind
      exact pattern_onGrid hgrid

end Pivotal.Decimal
