import Mathlib
import Pivotal.Decimal.Binary

/-!
# Doubles by sign and pattern

A double that is not NaN is determined by its sign and its pattern.  `unpacked` says what the parts
of a finite double are, `unpack_cases` that every word has them, and `pack_unpack` that nothing is
lost on the way.  It follows that every double is `ofPattern` of a sign and a pattern, finite or not,
or the one NaN (`float_cases`), that `Shape.ofFloat` finds sign and pattern again
(`ofFloat_ofPattern`), and how a finite double is negated and compared: `neg_ofPattern`,
`beq_zero_iff`, `lt_zero_iff`, `beq_ofPattern`.
-/

namespace Pivotal.Decimal

open Float.Model Float.Model.UnpackedFloat

theorem binade_eq : binade = 4503599627370496 := rfl

theorem signWord_eq : signWord = 9223372036854775808 := rfl

theorem infinityPattern_eq : infinityPattern = 9218868437227405312 := rfl

/-! ## The fields of a word -/

section Fields

variable (b : BitVec Format.binary64.numBits)

theorem toNat_unpackMantissa : (unpackMantissa b).toNat = b.toNat % binade := by
  unfold unpackMantissa
  rw [BitVec.toNat_cast, BitVec.extractLsb_toNat, Nat.shiftRight_zero]
  rfl

theorem toNat_unpackExponent : (unpackExponent b).toNat = b.toNat / binade % 2048 := by
  unfold unpackExponent
  rw [BitVec.toNat_cast, BitVec.extractLsb_toNat, Nat.shiftRight_eq_div_pow]
  rfl

theorem toNat_unpackSign : (unpackSign b).toNat = b.toNat / signWord % 2 := by
  unfold unpackSign
  rw [BitVec.toNat_cast, BitVec.extractLsb_toNat, Nat.shiftRight_eq_div_pow]
  rfl

theorem toNat_packComponents (s : Sign) (e : BitVec 11) (m : BitVec 52) :
    (packComponents Format.binary64 s e m).toNat =
      s.toBitVec.toNat * signWord + e.toNat * binade + m.toNat := by
  unfold packComponents
  rw [BitVec.toNat_append, BitVec.toNat_append, ← Nat.shiftLeft_add_eq_or_of_lt e.isLt,
    ← Nat.shiftLeft_add_eq_or_of_lt m.isLt, Nat.shiftLeft_eq, Nat.shiftLeft_eq]
  simp only [binade_eq, signWord_eq]
  omega

/-- The sign of a word. -/
def signOf : Sign := .ofBitVec (unpackSign b)

theorem toNat_signOf : (signOf b).toBitVec.toNat = b.toNat / signWord % 2 := by
  have hinverse : ∀ v : BitVec 1, (Sign.ofBitVec v).toBitVec = v := by decide
  rw [signOf, hinverse, toNat_unpackSign]

/-- The sign of a flag. -/
def flagSign (negative : Bool) : Sign := if negative then .negative else .positive

theorem signOf_eq : signOf b = flagSign (decide (signWord ≤ b.toNat)) := by
  have hlt : b.toNat < 18446744073709551616 := b.isLt
  have hzero : unpackSign b = 0#1 ↔ ¬signWord ≤ b.toNat := by
    rw [← BitVec.toNat_inj, toNat_unpackSign]
    change b.toNat / signWord % 2 = 0 ↔ _
    rw [signWord_eq]
    omega
  unfold signOf Sign.ofBitVec flagSign
  by_cases h : signWord ≤ b.toNat
  · rw [if_neg (fun h0 => hzero.mp h0 h), if_pos (decide_eq_true h)]
  · rw [if_pos (hzero.mpr h), if_neg (by simpa using h)]

end Fields

/-! ## The parts of a finite double -/

/-- Sign, significand and exponent of a finite pattern. -/
def unpacked (s : Sign) (p : Nat) : UnpackedFloat :=
  if h : p = 0 then .zero s
  else if p < binade then .finite s p (-1074) (Nat.pos_of_ne_zero h)
  else .finite s (binade + p % binade) ((p / binade : Nat) - 1075)
    (Nat.add_pos_left (by decide) _)

/-- The forms of the parts: a zero, less than one binade, or a significand with a leading one. -/
theorem unpacked_cases (p : Nat) :
    (p = 0 ∧ ∀ s, unpacked s p = .zero s) ∨
    (∃ hp : 0 < p, p < binade ∧ ∀ s, unpacked s p = .finite s p (-1074) hp) ∨
    (binade ≤ p ∧ ∃ hm, ∀ s, unpacked s p =
      .finite s (binade + p % binade) ((p / binade : Nat) - 1075) hm) := by
  unfold unpacked
  by_cases h0 : p = 0
  · exact .inl ⟨h0, fun s => dif_pos h0⟩
  · refine .inr ?_
    by_cases hlt : p < binade
    · exact .inl ⟨Nat.pos_of_ne_zero h0, hlt, fun s => (dif_neg h0).trans (if_pos hlt)⟩
    · exact .inr ⟨Nat.le_of_not_lt hlt, Nat.add_pos_left (by decide) _, fun s =>
        (dif_neg h0).trans (if_neg hlt)⟩

theorem finite_congr {s : Sign} {m m' : Nat} {e e' : Int} {hm : 0 < m} {hm' : 0 < m'}
    (h : m = m') (he : e = e') : UnpackedFloat.finite s m e hm = .finite s m' e' hm' := by
  subst h he
  rfl

section Pattern

variable {b : BitVec Format.binary64.numBits} {p : Nat} (hp : b.toNat % signWord = p)

include hp

theorem exponent_of_pattern : (unpackExponent b).toNat = p / binade := by
  have hword : b.toNat < 18446744073709551616 := b.isLt
  rw [toNat_unpackExponent, ← hp, binade_eq, signWord_eq]
  omega

theorem mantissa_of_pattern : (unpackMantissa b).toNat = p % binade := by
  rw [toNat_unpackMantissa, ← hp, binade_eq, signWord_eq]
  omega

/-- Infinities and NaN have all ones in the exponent. -/
theorem exponent_eq_ones_iff : unpackExponent b = -1#11 ↔ infinityPattern ≤ p := by
  have hlt : p < 9223372036854775808 := hp ▸ Nat.mod_lt _ (by decide)
  rw [← BitVec.toNat_inj, exponent_of_pattern hp]
  change p / binade = 2047 ↔ _
  rw [binade_eq, infinityPattern_eq]
  omega

theorem exponent_eq_zero_iff : unpackExponent b = 0#11 ↔ p < binade := by
  rw [← BitVec.toNat_inj, exponent_of_pattern hp]
  change p / binade = 0 ↔ _
  rw [binade_eq]
  omega

theorem mantissa_eq_zero_iff : unpackMantissa b = 0#52 ↔ p % binade = 0 := by
  rw [← BitVec.toNat_inj, mantissa_of_pattern hp]
  rfl

/-- The significand of a normal double has a leading one. -/
theorem significand_of_pattern : (1#1 ++ unpackMantissa b).toNat = binade + p % binade := by
  rw [BitVec.toNat_append, ← Nat.shiftLeft_add_eq_or_of_lt (unpackMantissa b).isLt,
    mantissa_of_pattern hp]
  rfl

/-- What a word with an exponent that is not all ones is. -/
theorem unpack_finite (hlt : p < infinityPattern) :
    UnpackedFloat.unpack Format.binary64 b = unpacked (signOf b) p := by
  unfold UnpackedFloat.unpack unpacked signOf
  dsimp only
  rw [if_neg (mt (exponent_eq_ones_iff hp).mp (Nat.not_le.mpr hlt))]
  by_cases hexp : unpackExponent b = 0#11
  · have hlow := (exponent_eq_zero_iff hp).mp hexp
    have hmod : p % binade = p := Nat.mod_eq_of_lt hlow
    have hzero : unpackMantissa b = 0#52 ↔ p = 0 := by rw [mantissa_eq_zero_iff hp, hmod]
    rw [if_pos hexp]
    by_cases h0 : p = 0
    · rw [dif_pos (hzero.mpr h0), dif_pos h0]
    · rw [dif_neg (mt hzero.mp h0), dif_neg h0, if_pos hlow]
      exact finite_congr ((mantissa_of_pattern hp).trans hmod) (by rw [hexp]; rfl)
  · have hhigh := mt (exponent_eq_zero_iff hp).mpr hexp
    have hne : p ≠ 0 := fun h => hhigh (h ▸ by decide)
    rw [if_neg hexp, dif_neg hne, if_neg hhigh]
    exact finite_congr (significand_of_pattern hp) (by rw [exponent_of_pattern hp]; rfl)

/-- Among the words with such an exponent, an infinity has no fraction. -/
theorem infinite_iff (hle : infinityPattern ≤ p) :
    unpackMantissa b = 0#52 ↔ p = infinityPattern := by
  have hword : p < 9223372036854775808 := hp ▸ Nat.mod_lt _ (by decide)
  rw [mantissa_eq_zero_iff hp]
  rw [infinityPattern_eq] at hle ⊢
  rw [binade_eq]
  omega

/-- What a word is, by its pattern. -/
theorem unpack_cases :
    (p < infinityPattern ∧ UnpackedFloat.unpack Format.binary64 b = unpacked (signOf b) p) ∨
    (p = infinityPattern ∧ UnpackedFloat.unpack Format.binary64 b = .infinity (signOf b)) ∨
    (infinityPattern < p ∧ UnpackedFloat.unpack Format.binary64 b = .notANumber) := by
  rcases Nat.lt_or_ge p infinityPattern with hlt | hle
  · exact .inl ⟨hlt, unpack_finite hp hlt⟩
  · have htop := infinite_iff hp hle
    unfold UnpackedFloat.unpack signOf
    dsimp only
    rw [if_pos ((exponent_eq_ones_iff hp).mpr hle)]
    by_cases heq : p = infinityPattern
    · rw [if_pos (htop.mpr heq)]
      exact .inr (.inl ⟨heq, rfl⟩)
    · rw [if_neg (mt htop.mp heq)]
      exact .inr (.inr ⟨Nat.lt_of_le_of_ne hle (Ne.symm heq), rfl⟩)

end Pattern

theorem pack_subnormal (s : Sign) {m : Nat} (hm : 0 < m) (hlt : m < binade) :
    UnpackedFloat.pack Format.binary64 (.finite s m (-1074) hm) =
      packComponents Format.binary64 s (0#11) (BitVec.ofNat 52 m) := by
  have hlog : m.log2 < 52 := (Nat.log2_lt (Nat.ne_of_gt hm)).mpr hlt
  unfold UnpackedFloat.pack
  rw [if_neg (by decide), if_neg (fun h => by change m.log2 + 1 = 53 at h; omega)]

theorem pack_normal (s : Sign) {m e : Nat} (hm : 0 < m) (hle : binade ≤ m) (hlt : m < 2 * binade)
    (he : e < 2047) :
    UnpackedFloat.pack Format.binary64 (.finite s m ((e : Int) - 1075) hm) =
      packComponents Format.binary64 s (BitVec.ofNat 11 e) (BitVec.ofNat 52 m) := by
  have hlow : 52 ≤ m.log2 := (Nat.le_log2 (Nat.ne_of_gt hm)).mpr hle
  have hhigh : m.log2 < 53 := (Nat.log2_lt (Nat.ne_of_gt hm)).mpr hlt
  have hbias : ((e : Int) - 1075 + Format.binary64.exponentBias +
      Format.binary64.mantissaBitsWithoutImplicit).toNat = e := by
    change ((e : Int) - 1075 + (1023 : Nat) + (52 : Nat)).toNat = e
    omega
  unfold UnpackedFloat.pack
  simp only [hbias]
  rw [if_neg (fun h => by change 2048 ≤ e + 1 at h; omega),
    if_pos (by change m.log2 + 1 = 53; omega)]

/-- The word of the parts is the sign bit and the pattern. -/
theorem toNat_pack_unpacked (s : Sign) {p : Nat} (hp : p < infinityPattern) :
    (UnpackedFloat.pack Format.binary64 (unpacked s p)).toNat =
      s.toBitVec.toNat * signWord + p := by
  have hdiv : p / binade * binade + p % binade = p := Nat.div_add_mod' p binade
  rcases unpacked_cases p with ⟨h0, h⟩ | ⟨_, hlt, h⟩ | ⟨_, _, h⟩
  · rw [h]
    show (packComponents Format.binary64 s 0#11 0#52).toNat = _
    rw [toNat_packComponents, h0, BitVec.toNat_ofNat, BitVec.toNat_ofNat, Nat.zero_mod, Nat.zero_mul,
      Nat.add_zero]
  · have hfraction : p % 2 ^ 52 = p := Nat.mod_eq_of_lt hlt
    rw [h, pack_subnormal s _ hlt, toNat_packComponents, BitVec.toNat_ofNat, BitVec.toNat_ofNat,
      hfraction, Nat.zero_mod, Nat.zero_mul, Nat.add_zero]
  · have he : p / binade < 2047 := (Nat.div_lt_iff_lt_mul (by decide)).mpr hp
    have hm : binade + p % binade < 2 * binade := by
      have hmod := Nat.mod_lt p (by decide : 0 < binade)
      omega
    have hfraction : (binade + p % binade) % 2 ^ 52 = p % binade :=
      (Nat.add_mod_left binade _).trans (Nat.mod_mod p binade)
    rw [h, pack_normal s _ (Nat.le_add_right _ _) hm he, toNat_packComponents, BitVec.toNat_ofNat,
      BitVec.toNat_ofNat, hfraction, Nat.mod_eq_of_lt (Nat.lt_trans he (by decide)),
      Nat.add_assoc, hdiv]

/-- Taking a word apart and putting it together again changes nothing, unless it is a NaN. -/
theorem pack_unpack {b : BitVec Format.binary64.numBits}
    (hb : b.toNat % signWord ≤ infinityPattern) :
    UnpackedFloat.pack Format.binary64 (UnpackedFloat.unpack Format.binary64 b) = b := by
  have hlt : b.toNat < 18446744073709551616 := b.isLt
  have hsign := toNat_signOf b
  apply BitVec.eq_of_toNat_eq
  rcases unpack_cases (b := b) rfl with ⟨hp, h⟩ | ⟨hp, h⟩ | ⟨hp, h⟩
  · rw [h, toNat_pack_unpacked _ hp, hsign, signWord_eq]
    omega
  · rw [h]
    show (packComponents Format.binary64 _ (-1#11) 0#52).toNat = _
    rw [toNat_packComponents, hsign]
    change _ * _ + infinityPattern + 0 = _
    rw [← hp, signWord_eq]
    omega
  · exact absurd hb (Nat.not_le.mpr hp)

/-! ## Doubles -/

theorem toBits_ofBits {w : UInt64} (hw : w.toNat % signWord ≤ infinityPattern) :
    (Float.ofBits w).toBits = w :=
  UInt64.toBitVec_inj.mp (pack_unpack (b := w.toBitVec) hw)

/-- The word of a sign and a pattern. -/
theorem toNat_toBits_ofPattern (negative : Bool) {p : Nat} (hp : p ≤ infinityPattern) :
    (ofPattern negative p).toBits.toNat = if negative then signWord + p else p := by
  have hlt : (if negative then signWord + p else p) < 18446744073709551616 := by
    rw [infinityPattern_eq] at hp
    rw [signWord_eq]
    split <;> omega
  have hword : (UInt64.ofNat (if negative then signWord + p else p)).toNat =
      if negative then signWord + p else p := by
    rw [UInt64.toNat_ofNat', Nat.mod_eq_of_lt hlt]
  unfold ofPattern
  rw [toBits_ofBits, hword]
  rw [hword, signWord_eq]
  rw [infinityPattern_eq] at hp ⊢
  split <;> omega

theorem toNat_toBits_mod (negative : Bool) {p : Nat} (hp : p < infinityPattern) :
    (ofPattern negative p).toBits.toNat % signWord = p := by
  have hlt : p < signWord := Nat.lt_trans hp (by decide)
  rw [toNat_toBits_ofPattern negative (Nat.le_of_lt hp)]
  split
  · rw [Nat.add_mod_left, Nat.mod_eq_of_lt hlt]
  · exact Nat.mod_eq_of_lt hlt

theorem ofFloat_ofPattern (negative : Bool) {p : Nat} (hp : p < infinityPattern) :
    Shape.ofFloat (ofPattern negative p) = .finite negative p := by
  have hlt : p < signWord := Nat.lt_trans hp (by decide)
  have hneg : decide (signWord ≤ (ofPattern negative p).toBits.toNat) = negative := by
    rw [toNat_toBits_ofPattern negative (Nat.le_of_lt hp)]
    cases negative
    · simpa using hlt
    · simp
  unfold Shape.ofFloat
  dsimp only
  rw [toNat_toBits_mod negative hp, hneg, if_neg (Nat.not_lt.mpr (Nat.le_of_lt hp)),
    if_neg (Nat.ne_of_lt hp)]

/-- A double that is not NaN is the double of its sign and its pattern. -/
theorem eq_ofPattern {x : Float} (hx : x.toBits.toNat % signWord ≤ infinityPattern) :
    x = ofPattern (decide (signWord ≤ x.toBits.toNat)) (x.toBits.toNat % signWord) := by
  have hlt : x.toBits.toNat < 18446744073709551616 := x.toBits.toNat_lt
  apply Float.toBits_inj.mp
  apply UInt64.toNat_inj.mp
  rw [toNat_toBits_ofPattern _ hx]
  simp only [decide_eq_true_eq]
  rw [signWord_eq]
  split <;> omega

theorem exists_ofPattern {x : Float} (hx : x.isFinite = true) :
    ∃ negative p, p < infinityPattern ∧ x = ofPattern negative p := by
  change (UnpackedFloat.unpack Format.binary64 x.toBits.toBitVec).isFinite = true at hx
  rcases unpack_cases (b := x.toBits.toBitVec) rfl with ⟨hp, -⟩ | ⟨-, h⟩ | ⟨-, h⟩
  · change x.toBits.toNat % signWord < infinityPattern at hp
    exact ⟨_, _, hp, eq_ofPattern (Nat.le_of_lt hp)⟩
  · rw [h] at hx
    cases hx
  · rw [h] at hx
    cases hx

/-- There is one NaN. -/
theorem eq_nan {x : Float} (hx : infinityPattern < x.toBits.toNat % signWord) :
    x = Shape.nan.toFloat := by
  have hpattern : x.toBits.toBitVec.toNat % signWord = x.toBits.toNat % signWord := rfl
  have hle := Nat.le_of_lt hx
  have hones := (exponent_eq_ones_iff hpattern).mpr hle
  have hfraction := mt (infinite_iff hpattern hle).mp (Nat.ne_of_gt hx)
  apply Float.toBits_inj.mp
  apply UInt64.toBitVec_inj.mp
  exact (x.toModel.valid.eq_packedNaN hones hfraction).trans (by decide)

/-- The kinds of doubles. -/
@[elab_as_elim]
theorem float_cases {motive : Float → Prop}
    (finite : ∀ negative p, p < infinityPattern → motive (ofPattern negative p))
    (infinite : ∀ negative, motive (ofPattern negative infinityPattern))
    (nan : motive Shape.nan.toFloat) (x : Float) : motive x := by
  rcases Nat.lt_trichotomy (x.toBits.toNat % signWord) infinityPattern with hlt | heq | hgt
  · rw [eq_ofPattern (Nat.le_of_lt hlt)]
    exact finite _ _ hlt
  · rw [eq_ofPattern (Nat.le_of_eq heq), heq]
    exact infinite _
  · rw [eq_nan hgt]
    exact nan

/-! ## Negation and comparison -/

theorem unpack_ofPattern (negative : Bool) {p : Nat} (hp : p < infinityPattern) :
    (ofPattern negative p).toModel.unpack = unpacked (flagSign negative) p := by
  have hlt : p < signWord := Nat.lt_trans hp (by decide)
  have hword : (ofPattern negative p).toBits.toBitVec.toNat =
      if negative then signWord + p else p := toNat_toBits_ofPattern negative (Nat.le_of_lt hp)
  have hsign := signOf_eq (ofPattern negative p).toBits.toBitVec
  have hflag : decide (signWord ≤ (ofPattern negative p).toBits.toBitVec.toNat) = negative := by
    rw [hword]
    cases negative
    · simpa using hlt
    · simp
  rcases unpack_cases (b := (ofPattern negative p).toBits.toBitVec)
    (toNat_toBits_mod negative hp) with ⟨-, h⟩ | ⟨h, -⟩ | ⟨h, -⟩
  · rw [hsign, hflag] at h
    exact h
  · exact absurd h (Nat.ne_of_lt hp)
  · exact absurd h (Nat.lt_asymm hp)

theorem neg_unpacked (s : Sign) (p : Nat) : (unpacked s p).neg = unpacked (-s) p := by
  rcases unpacked_cases p with ⟨_, h⟩ | ⟨_, _, h⟩ | ⟨_, _, h⟩
  · rw [h, h]
    rfl
  · rw [h, h]
    rfl
  · rw [h, h]
    rfl

theorem neg_ofPattern (negative : Bool) {p : Nat} (hp : p < infinityPattern) :
    -(ofPattern negative p) = ofPattern (!negative) p := by
  apply Float.toBits_inj.mp
  apply UInt64.toNat_inj.mp
  rw [toNat_toBits_ofPattern _ (Nat.le_of_lt hp)]
  show (UnpackedFloat.pack Format.binary64 (ofPattern negative p).toModel.unpack.neg).toNat = _
  rw [unpack_ofPattern negative hp, neg_unpacked, toNat_pack_unpacked _ hp]
  cases negative
  · show 1 * signWord + p = signWord + p
    rw [Nat.one_mul]
  · show 0 * signWord + p = p
    rw [Nat.zero_mul, Nat.zero_add]

theorem compare_finite_self (s : Sign) (m : Nat) (e : Int) (hm : 0 < m) :
    (UnpackedFloat.finite s m e hm).compare (.finite s m e hm) = some .eq := by
  have hsame : (compare e e).then (compare m m) = .eq := by
    simp only [Std.ReflCmp.compare_self, Ordering.then]
  cases s with
  | positive =>
    show some ((compare e e).then (compare m m)) = _
    rw [hsame]
  | negative =>
    show some ((compare e e).then (compare m m)).swap = _
    rw [hsame]
    rfl

theorem compare_unpacked_self (s : Sign) (p : Nat) :
    (unpacked s p).compare (unpacked s p) = some .eq := by
  rcases unpacked_cases p with ⟨_, h⟩ | ⟨_, _, h⟩ | ⟨_, _, h⟩
  · rw [h]
    rfl
  · rw [h]
    exact compare_finite_self s _ _ _
  · rw [h]
    exact compare_finite_self s _ _ _

/-- A finite double equals itself. -/
theorem beq_ofPattern (negative : Bool) {p : Nat} (hp : p < infinityPattern) :
    (ofPattern negative p == ofPattern negative p) = true := by
  show ((ofPattern negative p).toModel.unpack.compare (ofPattern negative p).toModel.unpack ==
    some .eq) = true
  rw [unpack_ofPattern negative hp, compare_unpacked_self]
  rfl

theorem compare_unpacked_zero (s : Sign) (p : Nat) : (unpacked s p).compare (.zero .positive) =
    some (if p = 0 then .eq else match s with | .positive => .gt | .negative => .lt) := by
  rcases unpacked_cases p with ⟨h0, h⟩ | ⟨hpos, _, h⟩ | ⟨hle, _, h⟩
  · rw [h, if_pos h0]
    rfl
  · rw [h, if_neg (Nat.ne_of_gt hpos)]
    cases s <;> rfl
  · rw [h, if_neg (Nat.ne_of_gt (Nat.lt_of_lt_of_le (by decide) hle))]
    cases s <;> rfl

/-- Zero is the pattern zero, of either sign. -/
theorem beq_zero_iff (negative : Bool) {p : Nat} (hp : p < infinityPattern) :
    (ofPattern negative p == 0) = true ↔ p = 0 := by
  show ((ofPattern negative p).toModel.unpack.compare (.zero .positive) == some .eq) = true ↔ _
  rw [unpack_ofPattern negative hp, compare_unpacked_zero, beq_iff_eq, Option.some.injEq]
  split
  · next h => simp [h]
  · next h => cases negative <;> simp [flagSign, h]

theorem lt_zero_iff (negative : Bool) {p : Nat} (hp : p < infinityPattern) :
    ofPattern negative p < 0 ↔ negative = true ∧ p ≠ 0 := by
  show decide (((ofPattern negative p).toModel.unpack.compare (.zero .positive) == some .lt) = true)
    = true ↔ _
  rw [unpack_ofPattern negative hp, compare_unpacked_zero, decide_eq_true_iff, beq_iff_eq,
    Option.some.injEq]
  split
  · next h => simp [h]
  · next h => cases negative <;> simp [flagSign, h]

end Pivotal.Decimal
