import Pivotal.Proofs.Complex.ReadBack
import Pivotal.Proofs.Task.Layout
import Pivotal.Task.Value

/-!
# Numbers in a document

A complex number with finite parts is written without blanks and commas, so its text is a token
(`isToken_pretty`).  Read as a value of a document, the token is a whole number, a real number or a
complex number, and in each case one that equals the number written, part by part
(`asComplex?_classify_pretty`); only the sign of a zero may be lost.

`pretty_cases` lists the three forms of the text: the real part alone, the imaginary part alone, and
both with a sign between them.
-/

namespace Pivotal.Complex

open Decimal (PlainText LiteralText ofPattern infinityPattern signed)

/-- Both parts are equal as numbers, so zeros of either sign are. -/
def equals (z w : Complex) : Bool := z.re == w.re && z.im == w.im

/-- Both parts are finite. -/
def isFinite (z : Complex) : Bool := z.re.isFinite && z.im.isFinite

/-! ## The text of a number -/

/-- The sign between two parts. -/
def signChar (negative : Bool) : Char := if negative then '-' else '+'

/-- The forms of the text: the parts by their signs and patterns, and their plain texts. -/
theorem pretty_cases {z : Complex} (hz : z.isFinite = true) :
    ∃ s p t q xs d ys e, p < infinityPattern ∧ q < infinityPattern ∧
      z = ⟨ofPattern s p, ofPattern t q⟩ ∧
      PlainText xs d ∧ d.pattern = p ∧ PlainText ys e ∧ e.pattern = q ∧
      ((q = 0 ∧ z.pretty = signed s xs) ∨ (p = 0 ∧ z.pretty = signed t ys ++ ['i']) ∨
        z.pretty = signed s xs ++ signChar t :: (ys ++ ['i'])) := by
  obtain ⟨re, im⟩ := z
  obtain ⟨hre, him⟩ := (Bool.and_eq_true _ _).mp hz
  obtain ⟨s, p, hp, rfl⟩ := Decimal.exists_ofPattern hre
  obtain ⟨t, q, hq, rfl⟩ := Decimal.exists_ofPattern him
  obtain ⟨xs, d, hd, hdp, hxs⟩ := exists_plainText hp
  obtain ⟨ys, e, he, heq, hys⟩ := exists_plainText hq
  refine ⟨s, p, t, q, xs, d, ys, e, hp, hq, rfl, hd, hdp, he, heq, ?_⟩
  unfold pretty
  dsimp only
  rw [hxs, hys]
  split
  · next h => exact .inl ⟨(Decimal.beq_zero_iff t hq).mp h, rfl⟩
  · next hq0 =>
    split
    · next h => exact .inr (.inl ⟨(Decimal.beq_zero_iff s hp).mp h, rfl⟩)
    · refine .inr (.inr ?_)
      split
      · next h =>
        obtain ⟨rfl, -⟩ := (Decimal.lt_zero_iff t hq).mp h
        rw [Decimal.neg_ofPattern true hq, hys, List.append_assoc]
        rfl
      · next h =>
        have hne : q ≠ 0 := mt (Decimal.beq_zero_iff t hq).mpr hq0
        obtain rfl : t = false := by
          cases t with
          | false => rfl
          | true => exact absurd ((Decimal.lt_zero_iff true hq).mpr ⟨rfl, hne⟩) h
        rw [List.append_assoc]
        rfl

/-- A character of the text of a number. -/
def isNumberChar (c : Char) : Bool := Decimal.isPlainChar c || isSign c || c = 'i'

theorem isNumberChar_signed {xs : List Char} {d : Decimal} (h : PlainText xs d) (negative : Bool) :
    ∀ c ∈ signed negative xs, isNumberChar c = true := by
  have hplain : ∀ c ∈ xs, isNumberChar c = true := fun c hc => by
    simp [isNumberChar, h.isPlainChar c hc]
  intro c hc
  cases negative with
  | false => exact hplain c hc
  | true =>
    rcases List.mem_cons.mp hc with rfl | hc
    · decide
    · exact hplain c hc

theorem isNumberChar_pretty {z : Complex} (hz : z.isFinite = true) :
    ∀ c ∈ z.pretty, isNumberChar c = true := by
  obtain ⟨s, p, t, q, xs, d, ys, e, -, -, -, hxs, -, hys, -, hform⟩ := pretty_cases hz
  intro c hc
  rcases hform with ⟨-, h⟩ | ⟨-, h⟩ | h
  · exact isNumberChar_signed hxs s c (h ▸ hc)
  · rw [h, List.mem_append, List.mem_singleton] at hc
    rcases hc with hc | rfl
    · exact isNumberChar_signed hys t c hc
    · decide
  · rw [h, List.mem_append, List.mem_cons, List.mem_append, List.mem_singleton] at hc
    rcases hc with hc | rfl | hc | rfl
    · exact isNumberChar_signed hxs s c hc
    · cases t <;> decide
    · simp [isNumberChar, hys.isPlainChar c hc]
    · decide

theorem pretty_ne_nil {z : Complex} (hz : z.isFinite = true) : z.pretty ≠ [] := by
  obtain ⟨s, p, t, q, xs, d, ys, e, -, -, -, hxs, -, -, -, hform⟩ := pretty_cases hz
  obtain ⟨c, xs, rfl, -⟩ := hxs.start
  rcases hform with ⟨-, h⟩ | ⟨-, h⟩ | h
  · rw [h]
    cases s <;> exact List.cons_ne_nil _ _
  · rw [h]
    simp
  · rw [h]
    simp

/-- The characters of numbers are neither blanks nor marks. -/
theorem isNumberChar_cases {c : Char} (hc : isNumberChar c = true) :
    Text.isBlank c = false ∧ c ≠ ',' ∧ c ≠ ';' ∧ c ≠ '/' := by
  have hne : ∀ m, isNumberChar m = false → c ≠ m := by
    rintro m hm rfl
    rw [hc] at hm
    cases hm
  refine ⟨?_, hne ',' (by decide), hne ';' (by decide), hne '/' (by decide)⟩
  simp only [isNumberChar, Decimal.isPlainChar, isSign, Bool.or_eq_true, decide_eq_true_eq] at hc
  rcases hc with ((hdigit | rfl) | (rfl | rfl)) | rfl
  · exact Task.not_isBlank_of_isWordChar (by simp [Task.isWordChar, Char.isAlphanum, hdigit])
  · decide
  · decide
  · decide
  · decide

theorem isToken_pretty {z : Complex} (hz : z.isFinite = true) :
    Task.isToken (String.ofList z.pretty) = true := by
  rw [Task.isToken_iff, String.toList_ofList]
  refine ⟨pretty_ne_nil hz, fun c hc => ?_, fun hslash => ?_⟩
  · obtain ⟨hblank, hcomma, hsemicolon, -⟩ := isNumberChar_cases (isNumberChar_pretty hz c hc)
    exact ⟨hblank, hcomma, hsemicolon⟩
  · have hmem : '/' ∈ z.pretty := hslash.subset List.mem_cons_self
    exact (isNumberChar_cases (isNumberChar_pretty hz _ hmem)).2.2.2 rfl

/-! ## Reading a number -/

/-- The imaginary part alone. -/
theorem read?_imaginary {ys : List Char} {e : Decimal} (h : PlainText ys e) (t : Bool) :
    read? (signed t ys ++ ['i']) = some ⟨0, ofPattern t e.pattern⟩ :=
  Form.read?_text (f := .imaginary (signed t ys) 'i')
    (.imaginary rfl (.literal (h.numeralText.literalText t)))

/-- Both parts. -/
theorem read?_both {xs ys : List Char} {d e : Decimal} (hxs : PlainText xs d)
    (hys : PlainText ys e) (s t : Bool) :
    read? (signed s xs ++ signChar t :: (ys ++ ['i'])) =
      some ⟨ofPattern s d.pattern, ofPattern t e.pattern⟩ := by
  have him : LiteralText (signChar t :: ys) ⟨t, .number e⟩ := by
    cases t with
    | false => exact .signed .plus hys.numeralText
    | true => exact .signed .minus hys.numeralText
  have hsign : isSign (signChar t) = true := by cases t <;> decide
  have hread := Form.read?_text (f := .both (signed s xs) (signChar t :: ys) 'i')
    (.both rfl (hxs.numeralText.literalText s) (.literal him) hsign)
  rwa [Form.text, List.append_assoc, List.cons_append] at hread

/-! ## Values -/

theorem trim_pretty {z : Complex} (hz : z.isFinite = true) : Text.trim z.pretty = z.pretty := by
  have hsolid := Task.solid_of_isToken (isToken_pretty hz)
  rw [String.toList_ofList] at hsolid
  exact Text.trim_eq_self hsolid

/-- A number with something behind it that is not part of a number is a complex number, if
anything. -/
theorem classifyTrimmed_more {xs rest : List Char} {d : Decimal} {c : Char} (h : PlainText xs d)
    (negative : Bool) (hc : Decimal.isPlainChar c = false) (he : c ≠ 'e' ∧ c ≠ 'E') {z : Complex}
    (hread : read? (signed negative xs ++ c :: rest) = some z) :
    Task.Value.classifyTrimmed (signed negative xs ++ c :: rest) = .complex z := by
  have hdigit : c.isDigit = false := by
    rw [Decimal.isPlainChar, Bool.or_eq_false_iff] at hc
    exact hc.1
  have htruth : Task.Value.readTruth? (signed negative xs ++ c :: rest) = none := by
    obtain ⟨x, xs, rfl, hx⟩ := h.start
    have ht : x ≠ 't' := by
      rintro rfl
      cases hx
    have hf : x ≠ 'f' := by
      rintro rfl
      cases hx
    cases negative <;> simp [Task.Value.readTruth?, signed, ht, hf]
  unfold Task.Value.classifyTrimmed
  simp only [h.readInt?_more negative hdigit, h.readFloat?_more negative hc he, htruth, hread]

theorem beq_ofPattern_of {s t : Bool} {p : Nat} (hp : p < infinityPattern) (h : s = t ∨ p = 0) :
    (ofPattern s p == ofPattern t p) = true := by
  rcases h with rfl | rfl
  · exact Decimal.beq_ofPattern s hp
  · cases s <;> cases t <;> decide

/-- A real number is read as a whole number or as a double. -/
theorem asComplex?_classifyTrimmed_signed {xs : List Char} {d : Decimal} (h : PlainText xs d)
    (hd : d.pattern < infinityPattern) (s : Bool) :
    ∃ x, (Task.Value.classifyTrimmed (signed s xs)).asComplex? = some ⟨x, 0⟩ ∧
      (x == ofPattern s d.pattern) = true := by
  unfold Task.Value.classifyTrimmed
  cases hint : Decimal.readInt? (signed s xs) with
  | some v =>
    obtain ⟨flag, hof, hflag⟩ := h.ofInt_of_readInt? hint
    refine ⟨_, rfl, ?_⟩
    rw [hof]
    exact beq_ofPattern_of hd hflag
  | none =>
    simp only [h.readFloat?_signed s]
    exact ⟨_, rfl, Decimal.beq_ofPattern s hd⟩

/-- **The text of a finite complex number reads as an equal number.** -/
theorem asComplex?_classify_pretty {z : Complex} (hz : z.isFinite = true) :
    ∃ w, (Task.Value.classify z.pretty).asComplex? = some w ∧ w.equals z = true := by
  unfold Task.Value.classify
  rw [trim_pretty hz]
  obtain ⟨s, p, t, q, xs, d, ys, e, hp, hq, rfl, hxs, rfl, hys, rfl, hform⟩ := pretty_cases hz
  have hzero : ∀ flag, (0 == ofPattern flag 0) = true := by decide
  rcases hform with ⟨hq0, h⟩ | ⟨hp0, h⟩ | h
  · obtain ⟨x, hx, heq⟩ := asComplex?_classifyTrimmed_signed hxs hp s
    refine ⟨_, h ▸ hx, ?_⟩
    rw [equals, Bool.and_eq_true]
    exact ⟨heq, hq0 ▸ hzero t⟩
  · rw [h, classifyTrimmed_more hys t (by decide) (by decide) (read?_imaginary hys t)]
    refine ⟨_, rfl, ?_⟩
    rw [equals, Bool.and_eq_true]
    exact ⟨hp0 ▸ hzero s, Decimal.beq_ofPattern t hq⟩
  · have hc : Decimal.isPlainChar (signChar t) = false := by cases t <;> decide
    have he : signChar t ≠ 'e' ∧ signChar t ≠ 'E' := by cases t <;> decide
    rw [h, classifyTrimmed_more hxs s hc he (read?_both hxs hys s t)]
    refine ⟨_, rfl, ?_⟩
    rw [equals, Bool.and_eq_true]
    exact ⟨Decimal.beq_ofPattern s hp, Decimal.beq_ofPattern t hq⟩

end Pivotal.Complex
