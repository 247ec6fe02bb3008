import Pivotal.Complex.Text
import Pivotal.Proofs.Complex.Grammar
import Pivotal.Proofs.Decimal.Double

/-!
# Numbers that read back

The text of every double is a literal of it (`exists_literal_partText`), infinities and NaN included,
and the sign of a double that is not zero can be written apart from it (`minus_partText`,
`exists_literal_plus`).  So `pretty` writes each number in one of the forms of the grammar
(`exists_form`), and reading gives the number back, but for the sign of a zero part.
-/

namespace Pivotal.Complex

open Decimal (PlainText NumeralText LiteralText Literal Shape ofPattern infinityPattern signed
  float_cases)

/-- What may be read for a double: one that compares equal, or NaN for NaN, and another word for a
zero or a NaN only. -/
structure ReadsAs (x y : Float) : Prop where
  same : (x == y) = true ∨ (x.isNaN = true ∧ y.isNaN = true)
  word : x = y ∨ (y == 0) = true ∨ y.isNaN = true

theorem ReadsAs.refl (x : Float) : ReadsAs x x where
  same := by
    cases x using float_cases with
    | finite s p hp => exact .inl (Decimal.beq_ofPattern s hp)
    | infinite s => cases s <;> decide
    | nan => decide
  word := .inl rfl

/-- A zero part is left out, whatever its sign. -/
theorem ReadsAs.zero {y : Float} (hy : (y == 0) = true) : ReadsAs 0 y where
  same := by
    cases y using float_cases with
    | finite s p hp =>
      rw [(Decimal.beq_zero_iff s hp).mp hy]
      cases s <;> decide
    | infinite s => cases s <;> exact absurd hy (by decide)
    | nan => exact absurd hy (by decide)
  word := .inr (.inl hy)

/-! ## The text of a part -/

theorem partText_ofPattern (negative : Bool) {p : Nat} (hp : p < infinityPattern) :
    partText (ofPattern negative p) =
      signed negative (Decimal.positionalText 0 (Decimal.shortest p)) := by
  unfold partText Decimal.floatText Decimal.render
  rw [Decimal.ofFloat_ofPattern negative hp]
  rfl

theorem partText_infinite (negative : Bool) :
    partText (ofPattern negative infinityPattern) = signed negative "inf".toList := by
  cases negative <;> decide

theorem partText_nan : partText Shape.nan.toFloat = "NaN".toList := by
  decide

/-- The digits of a finite double. -/
theorem exists_plainText {p : Nat} (hp : p < infinityPattern) : ∃ body d, PlainText body d ∧
    d.pattern = p ∧ ∀ negative, partText (ofPattern negative p) = signed negative body := by
  obtain ⟨d, hd, hpattern⟩ := Decimal.positionalText_plain (Decimal.shortest p)
  rw [Decimal.pattern_shortest hp] at hpattern
  exact ⟨_, d, hd, hpattern, fun negative => partText_ofPattern negative hp⟩

/-- The text of a double is a literal of it. -/
theorem exists_literal_partText (x : Float) : ∃ l, LiteralText (partText x) l ∧ l.value = x := by
  cases x using float_cases with
  | finite s p hp =>
    obtain ⟨body, d, hbody, rfl, htext⟩ := exists_plainText hp
    rw [htext]
    exact ⟨⟨s, .number d⟩, hbody.numeralText.literalText s, rfl⟩
  | infinite s =>
    rw [partText_infinite]
    exact ⟨⟨s, .infinite⟩, (NumeralText.name (.inf rfl)).literalText s, rfl⟩
  | nan =>
    rw [partText_nan]
    exact ⟨⟨false, .nan⟩, (NumeralText.name (.nan rfl)).literalText false, rfl⟩

/-- A minus in front negates. -/
theorem minus_partText {x : Float} (hx : x < 0) : '-' :: partText (-x) = partText x := by
  cases x using float_cases with
  | finite s p hp =>
    obtain ⟨rfl, -⟩ := (Decimal.lt_zero_iff s hp).mp hx
    rw [Decimal.neg_ofPattern true hp, partText_ofPattern _ hp, partText_ofPattern _ hp]
    rfl
  | infinite s =>
    cases s with
    | false => exact absurd hx (by decide)
    | true => decide
  | nan => exact absurd hx (by decide)

/-- A plus in front changes nothing where no minus is written. -/
theorem exists_literal_plus {x : Float} (hzero : ¬(x == 0) = true) (hx : ¬x < 0) :
    ∃ l, LiteralText ('+' :: partText x) l ∧ l.value = x := by
  cases x using float_cases with
  | finite s p hp =>
    obtain ⟨body, d, hbody, rfl, htext⟩ := exists_plainText hp
    cases s with
    | false =>
      rw [htext]
      exact ⟨⟨false, .number d⟩, .signed .plus hbody.numeralText, rfl⟩
    | true =>
      have hne := mt (Decimal.beq_zero_iff true hp).mpr hzero
      exact absurd ((Decimal.lt_zero_iff true hp).mpr ⟨rfl, hne⟩) hx
  | infinite s =>
    cases s with
    | false =>
      rw [partText_infinite]
      exact ⟨⟨false, .infinite⟩, .signed .plus (.name (.inf rfl)), rfl⟩
    | true => exact absurd (by decide) hx
  | nan =>
    rw [partText_nan]
    exact ⟨⟨false, .nan⟩, .signed .plus (.name (.nan rfl)), rfl⟩

/-! ## The text of a number -/

/-- The text of a number is a form that writes it. -/
theorem exists_form (z : Complex) : ∃ (f : Form) (w : Complex),
    f.text = z.pretty ∧ f.Writes w ∧ ReadsAs w.re z.re ∧ ReadsAs w.im z.im := by
  obtain ⟨re, im⟩ := z
  obtain ⟨l, hre, rfl⟩ := exists_literal_partText re
  obtain ⟨m, him, rfl⟩ := exists_literal_partText im
  unfold pretty
  dsimp only
  split
  · next hzero => exact ⟨.real _, _, rfl, .real hre, .refl _, .zero hzero⟩
  · next himzero =>
    split
    · next hzero =>
      exact ⟨.imaginary _ 'i', _, rfl, .imaginary rfl (.literal him), .zero hzero, .refl _⟩
    · split
      · next hneg =>
        rw [← minus_partText hneg] at him
        exact ⟨.both _ _ 'i', _, rfl, .both rfl hre (.literal him) rfl, .refl _, .refl _⟩
      · next hneg =>
        obtain ⟨n, hplus, hvalue⟩ := exists_literal_plus himzero hneg
        exact ⟨.both _ _ 'i', _, rfl, .both rfl hre (.literal hplus) rfl, .refl _, hvalue ▸ .refl _⟩

/-- **The text of a number reads back as it.** -/
theorem pretty_reads_back (z : Complex) :
    ∃ w, read? z.pretty = some w ∧ ReadsAs w.re z.re ∧ ReadsAs w.im z.im := by
  obtain ⟨f, w, htext, hwrites, hre, him⟩ := exists_form z
  exact ⟨w, htext ▸ Form.read?_text hwrites, hre, him⟩

end Pivotal.Complex
