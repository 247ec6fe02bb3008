import Pivotal.Decimal.Layout
import Pivotal.Decimal.Literal
import Pivotal.Proofs.Decimal.Double
import Pivotal.Proofs.Decimal.ReadBack
import Pivotal.Proofs.Text.Trim

/-!
# Numbers without an exponent

`PlainText cs d` says that `cs` writes the decimal `d` with digits and perhaps a point among them.
The text of a decimal in the plain layout is such a text, of a decimal that rounds to the same double
(`positionalText_plain`).  What follows it is read as an exponent (`PlainText.readDecimal?`).  Read as a
whole number, if it is one, it gives the double it rounds to, up to the sign of zero
(`ofInt_of_readInt?`).  Neither reader accepts it with something else behind it (`readFloat?_more`,
`readInt?_more`).
-/

namespace Pivotal.Decimal

open Text (Stops stops_cons takeWhile_of_stops dropWhile_of_stops)

/-- A digit or a point. -/
def isPlainChar (c : Char) : Bool := c.isDigit || c = '.'

/-- Digits, perhaps with a point among them, and the decimal they write. -/
inductive PlainText : List Char → Decimal → Prop
  | whole {ds : List Char} (hne : ds ≠ []) (hds : ∀ c ∈ ds, c.isDigit = true) :
      PlainText ds ⟨digitsValue ds, 0⟩
  | fraction {ds fs : List Char} (hne : ds ≠ []) (hds : ∀ c ∈ ds, c.isDigit = true)
      (hfs : ∀ c ∈ fs, c.isDigit = true) :
      PlainText (ds ++ '.' :: fs) ⟨digitsValue (ds ++ fs), -(fs.length : Int)⟩

/-! ## Writing -/

theorem digitsValue_eq (ds : List Char) : digitsValue ds = Nat.ofDigitChars 10 ds 0 := rfl

theorem digitsValue_digitsOf (n : Nat) : digitsValue (digitsOf n) = n := Nat.ofDigitChars_ten_toDigits

theorem isDigit_of_mem_digitsOf {n : Nat} {c : Char} (h : c ∈ digitsOf n) : c.isDigit = true :=
  Nat.isDigit_of_mem_toDigits (by decide) (by decide) h

theorem isDigit_of_mem_replicate {k : Nat} {c : Char} (h : c ∈ List.replicate k '0') :
    c.isDigit = true := by
  rw [List.eq_of_mem_replicate h]
  rfl

theorem digitsValue_append_zeros (ds : List Char) (k : Nat) :
    digitsValue (ds ++ List.replicate k '0') = digitsValue ds * 10 ^ k := by
  rw [digitsValue_eq, Nat.ofDigitChars_append, Nat.ofDigitChars_replicate_zero, Nat.mul_comm]
  rfl

theorem digitsValue_zeros_append (k : Nat) (ds : List Char) :
    digitsValue (List.replicate k '0' ++ ds) = digitsValue ds := by
  rw [digitsValue_eq, Nat.ofDigitChars_append, Nat.ofDigitChars_replicate_zero, Nat.mul_zero]
  rfl

/-- The text of a decimal writes one that rounds to the same double. -/
theorem positionalText_plain (d : Decimal) :
    ∃ d', PlainText (positionalText 0 d) d' ∧ d'.pattern = d.pattern := by
  obtain ⟨n, e⟩ := d
  have hne : digitsOf n ≠ [] := Nat.toDigits_ne_nil
  unfold positionalText
  dsimp only
  by_cases he : 0 ≤ e
  · rw [if_pos he, if_pos rfl, List.append_nil]
    refine ⟨_, .whole (by simp [hne]) fun c hc => ?_, ?_⟩
    · rcases List.mem_append.mp hc with hc | hc
      · exact isDigit_of_mem_digitsOf hc
      · exact isDigit_of_mem_replicate hc
    · rw [digitsValue_append_zeros, digitsValue_digitsOf, pattern_mul_pow, Int.zero_add,
        Int.toNat_of_nonneg he]
  · rw [if_neg he]
    generalize hpadded : List.replicate ((-e).toNat + 1 - (digitsOf n).length) '0' ++ digitsOf n =
      padded
    have hdigits : ∀ c ∈ padded, c.isDigit = true := by
      intro c hc
      rw [← hpadded] at hc
      rcases List.mem_append.mp hc with hc | hc
      · exact isDigit_of_mem_replicate hc
      · exact isDigit_of_mem_digitsOf hc
    have hlength : (-e).toNat + 1 ≤ padded.length := by
      rw [← hpadded, List.length_append, List.length_replicate]
      omega
    have hvalue : digitsValue padded = n := by
      rw [← hpadded, digitsValue_zeros_append, digitsValue_digitsOf]
    refine ⟨_, .fraction ?_ (fun c hc => hdigits c (List.mem_of_mem_take hc))
      (fun c hc => hdigits c (List.mem_of_mem_drop hc)), ?_⟩
    · rw [ne_eq, List.take_eq_nil_iff, not_or]
      refine ⟨by omega, fun h => ?_⟩
      rw [h] at hlength
      exact absurd hlength (Nat.not_succ_le_zero _)
    · have hexponent : -((padded.drop (padded.length - (-e).toNat)).length : Int) = e := by
        rw [List.length_drop]
        omega
      rw [List.take_append_drop, hvalue, hexponent]

/-! ## Reading -/

theorem toLower_of_isDigit {c : Char} (hc : c.isDigit = true) : c.toLower = c := by
  simp only [Char.isDigit, Bool.and_eq_true, decide_eq_true_eq, UInt32.le_iff_toNat_le] at hc
  have hupper : ¬(c.val ≥ 'A'.val ∧ c.val ≤ 'Z'.val) := by
    rintro ⟨hA, -⟩
    rw [ge_iff_le, UInt32.le_iff_toNat_le] at hA
    exact absurd (Nat.le_trans hA hc.2) (by decide)
  exact dif_neg hupper

theorem isPlainChar_of_isDigit {c : Char} (hc : c.isDigit = true) : isPlainChar c = true := by
  rw [isPlainChar, hc, Bool.true_or]

theorem isPlainChar_pointed {ds fs : List Char} (hds : ∀ c ∈ ds, c.isDigit = true)
    (hfs : ∀ c ∈ fs, c.isDigit = true) : ∀ c ∈ ds ++ '.' :: fs, isPlainChar c = true := by
  intro c hc
  rcases List.mem_append.mp hc with hc | hc
  · exact isPlainChar_of_isDigit (hds c hc)
  · rcases List.mem_cons.mp hc with rfl | hc
    · rfl
    · exact isPlainChar_of_isDigit (hfs c hc)

/-- A number does not start like a name. -/
theorem readName?_of_isPlainChar {c : Char} (hc : isPlainChar c = true) (rest : List Char) :
    readName? (c :: rest) = none := by
  have hlower : c.toLower = c := by
    rw [isPlainChar, Bool.or_eq_true, decide_eq_true_eq] at hc
    rcases hc with hc | rfl
    · exact toLower_of_isDigit hc
    · rfl
  have hi : c ≠ 'i' := by
    rintro rfl
    cases hc
  have hn : c ≠ 'n' := by
    rintro rfl
    cases hc
  simp [readName?, hlower, hi, hn]

namespace PlainText

variable {cs : List Char} {d : Decimal}

theorem start (h : PlainText cs d) : ∃ c rest, cs = c :: rest ∧ c.isDigit = true := by
  cases h with
  | whole hne hds =>
    obtain ⟨c, rest, rfl⟩ := List.exists_cons_of_ne_nil hne
    exact ⟨c, rest, rfl, hds c List.mem_cons_self⟩
  | fraction hne hds _ =>
    obtain ⟨c, rest, rfl⟩ := List.exists_cons_of_ne_nil hne
    exact ⟨c, _, rfl, hds c List.mem_cons_self⟩

theorem isPlainChar (h : PlainText cs d) : ∀ c ∈ cs, isPlainChar c = true := by
  cases h with
  | whole _ hds => exact fun c hc => isPlainChar_of_isDigit (hds c hc)
  | fraction _ hds hfs => exact isPlainChar_pointed hds hfs

/-- What follows the digits is read as an exponent. -/
theorem readDecimal? (h : PlainText cs d) {rest : List Char} (hrest : Stops Decimal.isPlainChar rest) :
    readDecimal? (cs ++ rest) =
      (readExponent? rest).map fun e => ⟨d.digits, e + d.exponent⟩ := by
  have hdigit : Stops Char.isDigit rest := hrest.mono fun c hc => by simp [Decimal.isPlainChar, hc]
  unfold Decimal.readDecimal? splitDigits
  cases h with
  | whole hne hds =>
    have hfraction : splitFraction rest = ([], rest) := by
      cases rest with
      | nil => rfl
      | cons c rest =>
        have hpoint : c ≠ '.' := by
          rintro rfl
          exact absurd (hrest '.' rfl) (by decide)
        unfold splitFraction
        split
        · next heq =>
          cases heq
          exact absurd rfl hpoint
        · rfl
    rw [takeWhile_of_stops hds hdigit, dropWhile_of_stops hds hdigit]
    simp only [hfraction, hne, false_and, if_false, List.append_nil]
    rfl
  | @fraction ds fs hne hds hfs =>
    have hpoint : Stops Char.isDigit ('.' :: (fs ++ rest)) := stops_cons rfl _
    rw [List.append_assoc, List.cons_append, takeWhile_of_stops hds hpoint,
      dropWhile_of_stops hds hpoint]
    simp only [splitFraction, splitDigits, takeWhile_of_stops hfs hdigit,
      dropWhile_of_stops hfs hdigit, hne, false_and, if_false]
    rfl

theorem splitSign_signed (h : PlainText cs d) (negative : Bool) (rest : List Char) :
    splitSign (signed negative cs ++ rest) = (negative, cs ++ rest) := by
  obtain ⟨c, cs, rfl, hc⟩ := h.start
  cases negative with
  | true => rfl
  | false =>
    have hplus : c ≠ '+' := by
      rintro rfl
      cases hc
    have hminus : c ≠ '-' := by
      rintro rfl
      cases hc
    show splitSign (c :: (cs ++ rest)) = _
    unfold splitSign
    split
    · next heq =>
      cases heq
      exact absurd rfl hplus
    · next heq =>
      cases heq
      exact absurd rfl hminus
    · rfl

theorem readName? (h : PlainText cs d) (rest : List Char) : readName? (cs ++ rest) = none := by
  obtain ⟨c, cs, rfl, hc⟩ := h.start
  exact readName?_of_isPlainChar (isPlainChar_of_isDigit hc) _

/-- Nothing but an exponent can follow a number. -/
theorem readFloat?_more (h : PlainText cs d) (negative : Bool) {c : Char} {rest : List Char}
    (hplain : Decimal.isPlainChar c = false) (hc : c ≠ 'e' ∧ c ≠ 'E') :
    readFloat? (signed negative cs ++ c :: rest) = none := by
  have hexponent : readExponent? (c :: rest) = none := by simp [readExponent?, hc]
  unfold readFloat? Literal.read?
  rw [h.splitSign_signed negative (c :: rest)]
  simp only [h.readName?, h.readDecimal? (stops_cons hplain rest), hexponent]
  rfl

theorem readInt?_more (h : PlainText cs d) (negative : Bool) {c : Char} {rest : List Char}
    (hc : c.isDigit = false) : readInt? (signed negative cs ++ c :: rest) = none := by
  have hdigits : readDigits? (cs ++ c :: rest) = none := by
    simp [readDigits?, hc]
  unfold readInt?
  rw [h.splitSign_signed negative (c :: rest)]
  simp only [hdigits]
  rfl

/-- A plain text of digits only writes their number. -/
theorem eq_whole (h : PlainText cs d) {n : Nat} (hn : readDigits? cs = some n) : d = ⟨n, 0⟩ := by
  unfold readDigits? at hn
  split at hn
  · next hall =>
    cases hn
    cases h with
    | whole _ _ => rfl
    | fraction _ _ _ => simp at hall
  · cases hn

/-- A plain text that reads as a whole number is the double of that number, but for the sign of
zero. -/
theorem ofInt_of_readInt? (h : PlainText cs d) {negative : Bool} {z : Int}
    (hz : readInt? (signed negative cs) = some z) :
    ∃ flag, ofInt z = ofPattern flag d.pattern ∧ (flag = negative ∨ d.pattern = 0) := by
  have hsign := h.splitSign_signed negative []
  simp only [List.append_nil] at hsign
  unfold readInt? at hz
  rw [hsign] at hz
  simp only [Option.bind_eq_some_iff] at hz
  obtain ⟨n, hn, hz⟩ := hz
  obtain rfl := h.eq_whole hn
  split at hz
  · next hneg =>
    split at hz
    · cases hz
      unfold ofInt
      rw [Int.natAbs_neg, Int.natAbs_natCast]
      by_cases h0 : n = 0
      · exact ⟨_, rfl, .inr (by rw [h0]; rfl)⟩
      · exact ⟨_, rfl, .inl (by rw [hneg]; exact decide_eq_true (by omega))⟩
    · cases hz
  · next hneg =>
    split at hz
    · cases hz
      unfold ofInt
      rw [Int.natAbs_natCast]
      refine ⟨_, rfl, .inl ?_⟩
      rw [Bool.eq_false_iff.mpr hneg]
      exact decide_eq_false (by omega)
    · cases hz

end PlainText

end Pivotal.Decimal
