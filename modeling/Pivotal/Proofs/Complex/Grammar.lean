import Pivotal.Proofs.Complex.Cuts
import Pivotal.Proofs.Decimal.Grammar

/-!
# The grammar of complex literals

A complex literal without its blanks has one of three forms: a real number, an imaginary factor with
the unit behind it, or both with a sign where they meet (`Form`).  `Form.Writes` says which texts the
parts of a form may be and which number it writes.  Reading accepts exactly the texts of the forms
(`read_grammar`).

A form can be told from its text (`Form.ofText_text`): a number never ends with the unit, a factor has
no cut, and where two parts meet is the last cut, since a literal has a sign inside only behind an
exponent mark (`splitAtSign?_literal`).
-/

namespace Pivotal.Complex

open Decimal (Literal LiteralText SignText ExponentText EndsLiteral)

/-- The text without its blanks. -/
def squeeze (text : List Char) : List Char := text.filter fun c => !Text.isBlank c

/-- The imaginary unit, by either letter. -/
def isUnit (c : Char) : Bool := c = 'i' || c = 'j'

/-- The factor of the unit: nothing or a bare sign stands for one. -/
inductive FactorText : List Char → Float → Prop
  | none : FactorText [] 1
  | plus : FactorText ['+'] 1
  | minus : FactorText ['-'] (-1)
  | literal {cs : List Char} {l : Literal} (h : LiteralText cs l) : FactorText cs l.value

/-- The forms of a complex literal, by the texts of its parts. -/
inductive Form where
  | real (re : List Char)
  | imaginary (im : List Char) (unit : Char)
  | both (re im : List Char) (unit : Char)
  deriving DecidableEq, Repr

namespace Form

def text : Form → List Char
  | real re => re
  | imaginary im unit => im ++ [unit]
  | both re im unit => re ++ im ++ [unit]

/-- The number that a form writes: the second part of two starts with a sign. -/
inductive Writes : Form → Complex → Prop
  | real {re : List Char} {l : Literal} (hre : LiteralText re l) : Writes (.real re) ⟨l.value, 0⟩
  | imaginary {im : List Char} {unit : Char} {y : Float} (hunit : isUnit unit = true)
      (him : FactorText im y) : Writes (.imaginary im unit) ⟨0, y⟩
  | both {re im : List Char} {unit s : Char} {l : Literal} {y : Float} (hunit : isUnit unit = true)
      (hre : LiteralText re l) (him : FactorText (s :: im) y) (hs : isSign s = true) :
      Writes (.both re (s :: im) unit) ⟨l.value, y⟩

end Form

theorem isUnit_iff {c : Char} : isUnit c = true ↔ c = 'i' ∨ c = 'j' := by
  simp [isUnit]

theorem isExponentMark_iff {c : Char} : isExponentMark c = true ↔ c = 'e' ∨ c = 'E' := by
  simp [isExponentMark]

/-! ## Parts -/

theorem ne_of_endsLiteral {cs : List Char} (h : EndsLiteral cs) {c : Char}
    (hc : Decimal.endsLiteral c = false) : cs.getLast? ≠ some c := by
  obtain ⟨d, hd, hends⟩ := h
  rw [hd, ne_eq, Option.some.injEq]
  rintro rfl
  rw [hc] at hends
  cases hends

theorem readFactor?_eq_some_iff {cs : List Char} {y : Float} :
    readFactor? cs = some y ↔ FactorText cs y := by
  unfold readFactor?
  constructor
  · intro h
    split at h
    · next hone =>
      cases h
      rcases hone with rfl | rfl
      · exact .none
      · exact .plus
    · split at h
      · next hminus =>
        cases h
        rw [hminus]
        exact .minus
      · obtain ⟨l, hl, rfl⟩ := Decimal.readFloat?_eq_some_iff.mp h
        exact .literal hl
  · intro h
    cases h with
    | none => rfl
    | plus => rfl
    | minus => rfl
    | literal hl =>
      rw [if_neg, if_neg]
      · exact Decimal.readFloat?_eq_some_iff.mpr ⟨_, hl, rfl⟩
      · rintro rfl
        exact ne_of_endsLiteral hl.endsLiteral (c := '-') (by decide) rfl
      · rintro (rfl | rfl)
        · exact hl.endsLiteral.ne_nil rfl
        · exact ne_of_endsLiteral hl.endsLiteral (c := '+') (by decide) rfl

theorem FactorText.unique {cs : List Char} {x y : Float} (hx : FactorText cs x)
    (hy : FactorText cs y) : x = y :=
  Option.some.inj ((readFactor?_eq_some_iff.mpr hx).symm.trans (readFactor?_eq_some_iff.mpr hy))

theorem splitAtSign?_signed {sign body : List Char} {negative : Bool}
    (hsign : SignText sign negative) (hbody : ∀ c ∈ body, isSign c = false) :
    splitAtSign? (sign ++ body) = none := by
  refine splitAtSign?_none fun c hc => hbody c ?_
  cases hsign with
  | none => exact List.mem_of_mem_tail hc
  | plus => exact hc
  | minus => exact hc

/-- A sign inside an exponent follows its mark. -/
theorem splitAtSign?_exponent {cs : List Char} {e : Int} (h : ExponentText cs e) :
    splitAtSign? cs = none := by
  cases h with
  | none => rfl
  | @written mark sign ds _ hmark hsign _ hds =>
    have hdigits : ∀ c ∈ ds, isSign c = false := fun c hc =>
      Decimal.not_isSign_of_isPlainChar (Decimal.isPlainChar_of_isDigit (hds c hc))
    refine splitAtSign?_cons_eq_none_iff.mpr ⟨splitAtSign?_signed hsign hdigits, ?_⟩
    have hexponent : isExponentMark mark = true := isExponentMark_iff.mpr hmark
    simp [cuts, hexponent]

/-- A literal has no cut. -/
theorem splitAtSign?_literal {cs : List Char} {l : Literal} (h : LiteralText cs l) :
    splitAtSign? cs = none := by
  obtain ⟨hsign, hbody⟩ := h
  cases hbody with
  | name h => exact splitAtSign?_signed hsign h.not_isSign
  | @number ds es d e hd he =>
    have hplain : ∀ c ∈ ds, isSign c = false := fun c hc =>
      Decimal.not_isSign_of_isPlainChar (hd.isPlainChar c hc)
    rw [← List.append_assoc]
    exact splitAtSign?_append_eq_none (splitAtSign?_signed hsign hplain) (splitAtSign?_exponent he)
      (cuts_of_stops (he.stops rfl rfl) _)

theorem splitAtSign?_factor {cs : List Char} {y : Float} (h : FactorText cs y) :
    splitAtSign? cs = none := by
  cases h with
  | none => rfl
  | plus => rfl
  | minus => rfl
  | literal hl => exact splitAtSign?_literal hl

/-- Two parts meet in the last cut. -/
theorem splitAtSign?_parts {re im : List Char} {s : Char} {l : Literal} {y : Float}
    (hre : LiteralText re l) (him : FactorText (s :: im) y) (hs : isSign s = true) :
    splitAtSign? (re ++ s :: im) = some (re, s :: im) := by
  refine splitAtSign?_eq_some_iff.mpr ⟨rfl, ?_, splitAtSign?_factor him⟩
  obtain ⟨c, hc, hends⟩ := hre.endsLiteral
  have hmark : isExponentMark c = false := by
    refine Bool.eq_false_iff.mpr fun hmark => ?_
    rcases isExponentMark_iff.mp hmark with rfl | rfl
    · exact absurd hends (by decide)
    · exact absurd hends (by decide)
  rw [cuts, List.head?_cons, Option.any_some, hs, hc, Option.any_some, hmark]
  rfl

/-! ## Forms -/

/-- A number does not end with the unit. -/
theorem not_isUnit_of_literal {cs : List Char} {l : Literal} (h : LiteralText cs l) {c : Char}
    (hc : cs.getLast? = some c) : isUnit c = false := by
  refine Bool.eq_false_iff.mpr fun hunit => ?_
  rcases isUnit_iff.mp hunit with rfl | rfl
  · exact absurd hc (ne_of_endsLiteral h.endsLiteral (by decide))
  · exact absurd hc (ne_of_endsLiteral h.endsLiteral (by decide))

namespace Form

/-- Finds the parts of a text. -/
def ofText (cs : List Char) : Form :=
  match cs.getLast? with
  | none => .real cs
  | some unit =>
    if isUnit unit then
      match splitAtSign? cs.dropLast with
      | some (re, im) => .both re im unit
      | none => .imaginary cs.dropLast unit
    else .real cs

/-- The parts of a form are found in its text. -/
theorem ofText_text {f : Form} {z : Complex} (h : f.Writes z) : ofText f.text = f := by
  unfold ofText
  cases h with
  | @real re l hre =>
    obtain ⟨c, hc, -⟩ := hre.endsLiteral
    rw [text, hc]
    dsimp only
    rw [not_isUnit_of_literal hre hc]
    rfl
  | imaginary hunit him =>
    simp only [text, List.getLast?_concat, List.dropLast_concat, hunit, if_true,
      splitAtSign?_factor him]
  | both hunit hre him hs =>
    simp only [text, List.getLast?_concat, List.dropLast_concat, hunit, if_true,
      splitAtSign?_parts hre him hs]

theorem Writes.unique {f : Form} {z w : Complex} (hz : f.Writes z) (hw : f.Writes w) : z = w := by
  cases hz with
  | real hre =>
    cases hw with
    | real hre' => rw [hre.unique hre']
  | imaginary _ him =>
    cases hw with
    | imaginary _ him' => rw [him.unique him']
  | both _ hre him _ =>
    cases hw with
    | both _ hre' him' _ => rw [hre.unique hre', him.unique him']

end Form

/-! ## Reading -/

theorem readParts?_eq_some_iff {body : List Char} {z : Complex} :
    readParts? body = some z ↔
      (∃ re s im l y, body = re ++ s :: im ∧ LiteralText re l ∧ FactorText (s :: im) y ∧
        isSign s = true ∧ z = ⟨l.value, y⟩) ∨ ∃ y, FactorText body y ∧ z = ⟨0, y⟩ := by
  unfold readParts?
  constructor
  · intro h
    split at h
    · next re back hsplit =>
      obtain ⟨rfl, hcut, -⟩ := splitAtSign?_eq_some_iff.mp hsplit
      obtain ⟨s, im, rfl, hs⟩ := exists_sign_of_cuts hcut
      obtain ⟨x, hx, him⟩ := Option.bind_eq_some_iff.mp h
      obtain ⟨y, hy, rfl⟩ := Option.map_eq_some_iff.mp him
      obtain ⟨l, hl, rfl⟩ := Decimal.readFloat?_eq_some_iff.mp hx
      exact .inl ⟨re, s, im, l, y, rfl, hl, readFactor?_eq_some_iff.mp hy, hs, rfl⟩
    · obtain ⟨y, hy, rfl⟩ := Option.map_eq_some_iff.mp h
      exact .inr ⟨y, readFactor?_eq_some_iff.mp hy, rfl⟩
  · rintro (⟨re, s, im, l, y, rfl, hre, him, hs, rfl⟩ | ⟨y, him, rfl⟩)
    · have hx : Decimal.readFloat? re = some l.value :=
        Decimal.readFloat?_eq_some_iff.mpr ⟨l, hre, rfl⟩
      simp only [splitAtSign?_parts hre him hs, hx, readFactor?_eq_some_iff.mpr him,
        Option.bind_some, Option.map_some]
    · simp only [splitAtSign?_factor him, readFactor?_eq_some_iff.mpr him, Option.map_some]

theorem read?_of_unit {text body : List Char} {unit : Char} (htext : squeeze text = body ++ [unit])
    (hunit : isUnit unit = true) : read? text = readParts? body := by
  have hlast : (squeeze text).getLast? = some 'i' ∨ (squeeze text).getLast? = some 'j' := by
    rw [htext, List.getLast?_concat, Option.some.injEq, Option.some.injEq]
    exact isUnit_iff.mp hunit
  have hread : read? text = readParts? (squeeze text).dropLast := if_pos hlast
  rw [hread, htext, List.dropLast_concat]

theorem read?_of_not_unit {text : List Char}
    (h : ∀ c, (squeeze text).getLast? = some c → isUnit c = false) :
    read? text = (Decimal.readFloat? (squeeze text)).map ofReal := by
  refine if_neg ?_
  rintro (hi | hj)
  · exact absurd (h 'i' hi) (by decide)
  · exact absurd (h 'j' hj) (by decide)

/-- A literal writes what it reads as. -/
theorem read?_eq_some_iff {text : List Char} {z : Complex} :
    read? text = some z ↔ ∃ f : Form, f.text = squeeze text ∧ f.Writes z := by
  constructor
  · intro h
    by_cases hunit : ∃ body unit, squeeze text = body ++ [unit] ∧ isUnit unit = true
    · obtain ⟨body, unit, htext, hunit⟩ := hunit
      rw [read?_of_unit htext hunit, readParts?_eq_some_iff] at h
      rcases h with ⟨re, s, im, l, y, rfl, hre, him, hs, rfl⟩ | ⟨y, him, rfl⟩
      · exact ⟨.both re (s :: im) unit, htext.symm, .both hunit hre him hs⟩
      · exact ⟨.imaginary body unit, htext.symm, .imaginary hunit him⟩
    · rw [read?_of_not_unit] at h
      · obtain ⟨x, hx, rfl⟩ := Option.map_eq_some_iff.mp h
        obtain ⟨l, hl, rfl⟩ := Decimal.readFloat?_eq_some_iff.mp hx
        exact ⟨.real (squeeze text), rfl, .real hl⟩
      · intro c hc
        obtain ⟨body, hbody⟩ := List.getLast?_eq_some_iff.mp hc
        exact Bool.eq_false_iff.mpr fun hc => hunit ⟨body, c, hbody, hc⟩
  · rintro ⟨f, htext, hf⟩
    cases hf with
    | @real re l hre =>
      have hlast : ∀ c, (squeeze text).getLast? = some c → isUnit c = false := by
        intro c hc
        rw [← htext] at hc
        exact not_isUnit_of_literal hre hc
      have hx : Decimal.readFloat? re = some l.value :=
        Decimal.readFloat?_eq_some_iff.mpr ⟨l, hre, rfl⟩
      rw [read?_of_not_unit hlast, ← htext, Form.text, hx]
      rfl
    | imaginary hunit him =>
      rw [read?_of_unit htext.symm hunit]
      exact readParts?_eq_some_iff.mpr (.inr ⟨_, him, rfl⟩)
    | both hunit hre him hs =>
      rw [read?_of_unit htext.symm hunit]
      exact readParts?_eq_some_iff.mpr (.inl ⟨_, _, _, _, _, rfl, hre, him, hs, rfl⟩)

theorem FactorText.not_isBlank {cs : List Char} {y : Float} (h : FactorText cs y) :
    ∀ c ∈ cs, Text.isBlank c = false := by
  intro c hc
  cases h with
  | none => cases hc
  | plus => rw [List.mem_singleton.mp hc]; rfl
  | minus => rw [List.mem_singleton.mp hc]; rfl
  | literal hl => exact hl.not_isBlank c hc

theorem not_isBlank_of_isUnit {c : Char} (hc : isUnit c = true) : Text.isBlank c = false := by
  rcases isUnit_iff.mp hc with rfl | rfl
  · rfl
  · rfl

/-- There are no blanks in a form. -/
theorem Form.squeeze_text {f : Form} {z : Complex} (h : f.Writes z) : squeeze f.text = f.text := by
  refine List.filter_eq_self.mpr fun c hc => ?_
  suffices hblank : Text.isBlank c = false by rw [hblank]; rfl
  cases h with
  | real hre => exact hre.not_isBlank c hc
  | imaginary hunit him =>
    rcases List.mem_append.mp hc with hc | hc
    · exact him.not_isBlank c hc
    · exact List.mem_singleton.mp hc ▸ not_isBlank_of_isUnit hunit
  | both hunit hre him _ =>
    rcases List.mem_append.mp hc with hc | hc
    · rcases List.mem_append.mp hc with hc | hc
      · exact hre.not_isBlank c hc
      · exact him.not_isBlank c hc
    · exact List.mem_singleton.mp hc ▸ not_isBlank_of_isUnit hunit

/-- A form reads as the number it writes. -/
theorem Form.read?_text {f : Form} {z : Complex} (h : f.Writes z) : read? f.text = some z :=
  read?_eq_some_iff.mpr ⟨f, (squeeze_text h).symm, h⟩

/-- **Reading accepts exactly the forms.**  A text is read as the number that a form of it writes, and
as nothing if it has no form.  A text has one form at most.  The cut between the parts can be found in
the bytes before the unit, and stands between two characters. -/
theorem read_grammar (text : List Char) :
    (∀ z, read? text = some z ↔ ∃ f : Form, f.text = squeeze text ∧ f.Writes z) ∧
    (∀ f g : Form, ∀ z w, f.Writes z → g.Writes w → f.text = squeeze text → g.text = squeeze text →
      f = g ∧ z = w) ∧
    ∀ body unit, squeeze text = body ++ [unit] →
      lastCut? (utf8 body) = (splitAtSign? body).map (fun p => (utf8 p.1).length) ∧
      ∀ k, lastCut? (utf8 body) = some k → String.Pos.Raw.IsValid (String.ofList body) ⟨k⟩ := by
  refine ⟨fun z => read?_eq_some_iff, fun f g z w hf hg hftext hgtext => ?_, fun body _ _ => ?_⟩
  · have hsame : f = g := by
      rw [← Form.ofText_text hf, ← Form.ofText_text hg, hftext, hgtext]
    exact ⟨hsame, hf.unique (hsame ▸ hg)⟩
  · exact ⟨lastCut?_utf8 body, fun k hk => isValid_of_lastCut? hk⟩

/-- Signs of exponents on both sides of the cut, and blanks around it. -/
theorem read_grammar_exponents :
    read? "2.5e-3 - 1E+2j".toList =
      some ⟨Literal.value ⟨false, .number ⟨25, -4⟩⟩, Literal.value ⟨true, .number ⟨1, 2⟩⟩⟩ ∧
    (∀ (f : Form) (w : Complex), f.Writes w → f.text = squeeze "2.5e-3 - 1E+2j".toList →
      f = .both "2.5e-3".toList "-1E+2".toList 'j') ∧
    lastCut? (utf8 "2.5e-3-1E+2".toList) = some 6 ∧
    String.Pos.Raw.IsValid (String.ofList "2.5e-3-1E+2".toList) ⟨6⟩ := by
  obtain ⟨hread, hunique, hcut⟩ := read_grammar "2.5e-3 - 1E+2j".toList
  have hre : LiteralText "2.5e-3".toList ⟨false, .number ⟨25, -4⟩⟩ :=
    Literal.read?_eq_some_iff.mp (by decide)
  have him : LiteralText "-1E+2".toList ⟨true, .number ⟨1, 2⟩⟩ :=
    Literal.read?_eq_some_iff.mp (by decide)
  have hwrites : (Form.both "2.5e-3".toList "-1E+2".toList 'j').Writes _ :=
    .both rfl hre (.literal him) rfl
  have htext : (Form.both "2.5e-3".toList "-1E+2".toList 'j').text =
      squeeze "2.5e-3 - 1E+2j".toList := by decide
  have hlast : lastCut? (utf8 "2.5e-3-1E+2".toList) = some 6 := by decide
  refine ⟨(hread _).mpr ⟨_, htext, hwrites⟩, fun f w hf hftext => ?_, hlast, ?_⟩
  · exact (hunique f _ w _ hf hwrites hftext htext).1
  · exact (hcut _ 'j' (by decide)).2 6 hlast

end Pivotal.Complex
