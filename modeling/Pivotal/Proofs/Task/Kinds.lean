import Pivotal.Proofs.Complex.ReadBack
import Pivotal.Task.Value

/-!
# The kinds of a value

The readers of a token are tried one after the other, and their languages overlap: every whole number
is also a real number, and every real number also a complex one.  `Kind cs v` says which reader found
the value `v`.  Whichever it is, the value is the number that the token writes as a complex literal
(`Kind.number_or_not`); only the sign of a zero can be lost, in a whole number.

A whole number is rounded once, from its digits and from the integer they write to the same double
(`exists_literal_of_readInt?`, `readsAs_ofInt`).
-/

namespace Pivotal.Decimal

open Pivotal.Complex (ReadsAs)

/-- A whole number is a literal without a point and without an exponent. -/
theorem exists_literal_of_readInt? {cs : List Char} {z : Int} (h : readInt? cs = some z) :
    ∃ (negative : Bool) (n : Nat), LiteralText cs ⟨negative, .number ⟨n, 0⟩⟩ ∧
      z = if negative then -(n : Int) else n := by
  obtain ⟨sign, hsign, hcs⟩ := splitSign_spec cs
  unfold readInt? at h
  generalize splitSign cs = p at *
  obtain ⟨negative, ds⟩ := p
  obtain ⟨n, hn, hz⟩ := Option.bind_eq_some_iff.mp h
  unfold readDigits? at hn
  split at hn
  · next hds =>
    cases hn
    have hplain := PlainText.whole hds.1 (List.all_eq_true.mp hds.2)
    refine ⟨negative, digitsValue ds, hcs ▸ .signed hsign hplain.numeralText, ?_⟩
    cases negative with
    | true =>
      rw [if_pos rfl] at hz
      split at hz
      · exact (Option.some.inj hz).symm
      · cases hz
    | false =>
      rw [if_neg Bool.false_ne_true] at hz
      split at hz
      · exact (Option.some.inj hz).symm
      · cases hz
  · cases hn

/-- An integer rounds to the double of its digits, but for the sign of zero. -/
theorem readsAs_ofInt (negative : Bool) (n : Nat) :
    ReadsAs (ofInt (if negative then -(n : Int) else n))
      (Literal.value ⟨negative, .number ⟨n, 0⟩⟩) := by
  by_cases hn : n = 0
  · rw [hn]
    cases negative with
    | false => exact .refl _
    | true => exact .zero (by decide)
  · have hof : ofInt (if negative then -(n : Int) else n) = ofPattern negative (pattern ⟨n, 0⟩) := by
      cases negative with
      | false =>
        show ofInt n = _
        rw [ofInt, Int.natAbs_natCast, decide_eq_false (by omega)]
      | true =>
        show ofInt (-(n : Int)) = _
        rw [ofInt, Int.natAbs_neg, Int.natAbs_natCast, decide_eq_true (by omega)]
    rw [hof]
    exact .refl _

end Pivotal.Decimal

namespace Pivotal.Complex

open Decimal (Literal LiteralText)

/-- A real literal is a complex literal. -/
theorem read?_literal {cs : List Char} {l : Literal} (h : LiteralText cs l) :
    read? cs = some (ofReal l.value) :=
  Form.read?_text (.real h)

/-- Blanks around a complex literal are ignored like those inside it. -/
theorem read?_trim (text : List Char) : read? (Text.trim text) = read? text := by
  obtain ⟨l, r, hl, hr, htext⟩ := Text.exists_trim text
  have hblank : ∀ bs : List Char, (∀ c ∈ bs, Text.isBlank c = true) → squeeze bs = [] :=
    fun bs hbs => List.filter_eq_nil_iff.mpr fun c hc => by simp [hbs c hc]
  have hsqueeze : squeeze text = squeeze (Text.trim text) := by
    calc squeeze text = squeeze (l ++ (Text.trim text ++ r)) := by rw [← htext]
      _ = squeeze l ++ (squeeze (Text.trim text) ++ squeeze r) := by
        simp only [squeeze, List.filter_append]
      _ = squeeze (Text.trim text) := by
        rw [hblank l hl, hblank r hr, List.nil_append, List.append_nil]
  ext z
  rw [read?_eq_some_iff, read?_eq_some_iff, hsqueeze]

end Pivotal.Complex

namespace Pivotal.Task.Value

open Pivotal.Complex (ReadsAs)

/-- The name of a truth value. -/
def truthName (b : Bool) : List Char := if b then "true".toList else "false".toList

/-- The first reader that accepts the text decides the kind of its value. -/
inductive Kind (cs : List Char) : Value → Prop
  | whole {z : Int} (hz : Decimal.readInt? cs = some z) : Kind cs (.whole z)
  | real {x : Float} (hx : Decimal.readFloat? cs = some x) : Kind cs (.real x)
  | truth (b : Bool) (hb : cs = truthName b) : Kind cs (.truth b)
  | complex {z : Complex} (hz : Complex.read? cs = some z) : Kind cs (.complex z)
  | text (htruth : ∀ b, cs ≠ truthName b) (hz : Complex.read? cs = none) :
      Kind cs (.text (String.ofList cs))

theorem readTruth?_eq_some_iff {cs : List Char} {b : Bool} :
    readTruth? cs = some b ↔ cs = truthName b := by
  unfold readTruth? truthName
  cases b <;> grind

theorem kind_classifyTrimmed (cs : List Char) : Kind cs (classifyTrimmed cs) := by
  unfold classifyTrimmed
  split
  · next hz => exact .whole hz
  · split
    · next hx => exact .real hx
    · split
      · next hb => exact .truth _ (readTruth?_eq_some_iff.mp hb)
      · next htruth =>
        have hnone : ∀ b, cs ≠ truthName b := by
          intro b hb
          rw [readTruth?_eq_some_iff.mpr hb] at htruth
          cases htruth
        split
        · next hz => exact .complex hz
        · next hz => exact .text hnone hz

/-- The names of the truth values are no numbers. -/
theorem read?_truthName (b : Bool) : Complex.read? (truthName b) = none := by
  cases b <;> decide

/-- A number keeps its value, and what is no number is a truth value by its name or a text. -/
theorem Kind.number_or_not {cs : List Char} {v : Value} (h : Kind cs v) :
    (∃ w z, Complex.read? cs = some w ∧ v.asComplex? = some z ∧ ReadsAs z.re w.re ∧
      ReadsAs z.im w.im) ∨
    (Complex.read? cs = none ∧ ((∃ b, cs = truthName b ∧ v = .truth b) ∨
      ((∀ b, cs ≠ truthName b) ∧ v = .text (String.ofList cs)))) := by
  cases h with
  | whole hz =>
    obtain ⟨negative, n, htext, rfl⟩ := Decimal.exists_literal_of_readInt? hz
    exact .inl ⟨_, _, Complex.read?_literal htext, rfl, Decimal.readsAs_ofInt negative n, .refl 0⟩
  | real hx =>
    obtain ⟨l, htext, rfl⟩ := Decimal.readFloat?_eq_some_iff.mp hx
    exact .inl ⟨_, _, Complex.read?_literal htext, rfl, .refl _, .refl _⟩
  | truth b hb => exact .inr ⟨by rw [hb, read?_truthName], .inl ⟨b, hb, rfl⟩⟩
  | complex hz => exact .inl ⟨_, _, hz, rfl, .refl _, .refl _⟩
  | text htruth hz => exact .inr ⟨hz, .inr ⟨htruth, rfl⟩⟩

theorem truthName_injective {a b : Bool} (h : truthName a = truthName b) : a = b := by
  revert a b
  decide

/-- **Classification never changes a number.**  A token has a complex value exactly if it reads as a
complex literal, and then the two are equal part by part, but for the sign of a zero.  Any other token
is a truth value if it is the name of one, and the trimmed text if not. -/
theorem classify_keeps_numbers (token : List Char) :
    (∀ w, Complex.read? token = some w →
      ∃ z, (classify token).asComplex? = some z ∧ ReadsAs z.re w.re ∧ ReadsAs z.im w.im) ∧
    (Complex.read? token = none →
      (classify token).asComplex? = none ∧
      (∀ b, classify token = .truth b ↔ Text.trim token = truthName b) ∧
      ((∀ b, Text.trim token ≠ truthName b) →
        classify token = .text (String.ofList (Text.trim token)))) := by
  have hkind : Kind (Text.trim token) (classify token) := kind_classifyTrimmed _
  rw [← Complex.read?_trim]
  rcases hkind.number_or_not with ⟨w, z, hw, hz, hre, him⟩ | ⟨hnone, ⟨b, hb, hv⟩ | ⟨htruth, hv⟩⟩
  · rw [hw]
    refine ⟨fun w' hw' => ?_, fun hnone => (by cases hnone)⟩
    cases hw'
    exact ⟨z, hz, hre, him⟩
  · rw [hnone, hv, hb]
    refine ⟨fun w hw => (by cases hw), fun _ => ⟨rfl, fun a => ?_, fun hne => absurd rfl (hne b)⟩⟩
    exact ⟨fun h => by cases h; rfl, fun h => by rw [truthName_injective h]⟩
  · rw [hnone, hv]
    refine ⟨fun w hw => (by cases hw), fun _ => ⟨rfl, fun b => ?_, fun _ => rfl⟩⟩
    exact ⟨fun h => (by cases h), fun h => absurd h (htruth b)⟩

/-- A whole zero loses its sign, a number beyond 64 bits is a real one, a blank inside a number is seen
by the complex reader only, and a truth value has its one spelling. -/
theorem classify_keeps_numbers_overlap :
    (∃ z, (classify "-0 ".toList).asComplex? = some z ∧
      ReadsAs z.re (Decimal.Literal.value ⟨true, .number ⟨0, 0⟩⟩) ∧ ReadsAs z.im 0) ∧
    (∃ z, (classify "9223372036854775808".toList).asComplex? = some z ∧
      ReadsAs z.re (Decimal.Literal.value ⟨false, .number ⟨9223372036854775808, 0⟩⟩) ∧
      ReadsAs z.im 0) ∧
    (∃ z, (classify "1\u00a02".toList).asComplex? = some z ∧
      ReadsAs z.re (Decimal.Literal.value ⟨false, .number ⟨12, 0⟩⟩) ∧ ReadsAs z.im 0) ∧
    (∀ b, classify " True".toList ≠ .truth b) ∧ classify " True".toList = .text "True" := by
  have hreal : ∀ {text : List Char} {l : Decimal.Literal},
      Decimal.Literal.read? (Complex.squeeze text) = some l →
        ∃ z, (classify text).asComplex? = some z ∧ ReadsAs z.re l.value ∧ ReadsAs z.im 0 := by
    intro text l hl
    have hread : Complex.read? text = some ⟨l.value, 0⟩ :=
      Complex.read?_eq_some_iff.mpr ⟨_, rfl, .real (Decimal.Literal.read?_eq_some_iff.mp hl)⟩
    exact (classify_keeps_numbers text).1 _ hread
  have hname : ∀ b, Text.trim " True".toList ≠ truthName b := by decide
  obtain ⟨-, htruth, htext⟩ := (classify_keeps_numbers " True".toList).2 rfl
  refine ⟨hreal ?_, hreal ?_, hreal ?_, fun b h => hname b ((htruth b).mp h), htext hname⟩
  · decide
  · decide
  · decide

end Pivotal.Task.Value
