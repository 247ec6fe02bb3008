import Pivotal.Complex.Literal
import Pivotal.Proofs.Decimal.PlainText
import Pivotal.Proofs.Text.Trim

/-!
# The grammar of number literals

`LiteralText cs l` derives the text `cs` of the literal `l`: an optional sign, and then a name in any
case of its letters, or digits with an optional point and an optional exponent.  Reading accepts exactly
the derived texts (`Literal.read?_eq_some_iff`), so a text has at most one reading, and `readFloat?`
gives the nearest double of it (`readFloat?_eq_some_iff`).

Each rule of the grammar has a reader of its own, and each reader its own equivalence:
`readExponent?_eq_some_iff`, `readDecimal?_eq_some_iff`, `readName?_eq_some_iff`.  What stands at the
ends of a literal tells it from what may be put around it: `NumeralText.stops`, `EndsLiteral`.
-/

namespace Pivotal.Decimal

open Pivotal.Complex (isSign)
open Text (Stops stops_cons stops_nil takeWhile_of_stops dropWhile_of_stops)

/-- An optional sign; the flag says that it is a minus. -/
inductive SignText : List Char → Bool → Prop
  | none : SignText [] false
  | plus : SignText ['+'] false
  | minus : SignText ['-'] true

/-- An optional exponent: a mark, an optional sign and one digit at least. -/
inductive ExponentText : List Char → Int → Prop
  | none : ExponentText [] 0
  | written {mark : Char} {sign ds : List Char} {negative : Bool} (hmark : mark = 'e' ∨ mark = 'E')
      (hsign : SignText sign negative) (hne : ds ≠ []) (hds : ∀ c ∈ ds, c.isDigit = true) :
      ExponentText (mark :: (sign ++ ds))
        (if negative then -(digitsValue ds : Int) else digitsValue ds)

/-- Digits with an optional point, one digit at least, and the decimal they write. -/
inductive DigitsText : List Char → Decimal → Prop
  | whole {ds : List Char} (hne : ds ≠ []) (hds : ∀ c ∈ ds, c.isDigit = true) :
      DigitsText ds ⟨digitsValue ds, 0⟩
  | pointed {ds fs : List Char} (hne : ds ≠ [] ∨ fs ≠ []) (hds : ∀ c ∈ ds, c.isDigit = true)
      (hfs : ∀ c ∈ fs, c.isDigit = true) :
      DigitsText (ds ++ '.' :: fs) ⟨digitsValue (ds ++ fs), -(fs.length : Int)⟩

/-- The names, in any case of their letters. -/
inductive NameText : List Char → Numeral → Prop
  | inf {cs : List Char} (h : cs.map Char.toLower = "inf".toList) : NameText cs .infinite
  | infinity {cs : List Char} (h : cs.map Char.toLower = "infinity".toList) : NameText cs .infinite
  | nan {cs : List Char} (h : cs.map Char.toLower = "nan".toList) : NameText cs .nan

/-- A literal without its sign. -/
inductive NumeralText : List Char → Numeral → Prop
  | name {cs : List Char} {n : Numeral} (h : NameText cs n) : NumeralText cs n
  | number {ds es : List Char} {d : Decimal} {e : Int} (hd : DigitsText ds d)
      (he : ExponentText es e) : NumeralText (ds ++ es) (.number ⟨d.digits, e + d.exponent⟩)

/-- A signed literal. -/
inductive LiteralText : List Char → Literal → Prop
  | signed {sign body : List Char} {negative : Bool} {n : Numeral} (hsign : SignText sign negative)
      (hbody : NumeralText body n) : LiteralText (sign ++ body) ⟨negative, n⟩

/-- A number without an exponent. -/
theorem PlainText.numeralText {cs : List Char} {d : Decimal} (h : PlainText cs d) :
    NumeralText cs (.number d) := by
  have hdigits : DigitsText cs d := by
    cases h with
    | whole hne hds => exact .whole hne hds
    | fraction hne hds hfs => exact .pointed (.inl hne) hds hfs
  have htext := NumeralText.number hdigits .none
  rwa [List.append_nil, Int.zero_add] at htext

theorem NumeralText.literalText {cs : List Char} {n : Numeral} (h : NumeralText cs n)
    (negative : Bool) : LiteralText (signed negative cs) ⟨negative, n⟩ := by
  cases negative with
  | false => exact .signed .none h
  | true => exact .signed .minus h

/-! ## Signs -/

theorem isSign_iff {c : Char} : isSign c = true ↔ c = '+' ∨ c = '-' := by
  simp [isSign]

theorem splitSign_spec (cs : List Char) :
    ∃ sign, SignText sign (splitSign cs).1 ∧ cs = sign ++ (splitSign cs).2 := by
  unfold splitSign
  split
  · exact ⟨['+'], .plus, rfl⟩
  · exact ⟨['-'], .minus, rfl⟩
  · exact ⟨[], .none, rfl⟩

theorem SignText.splitSign {sign body : List Char} {negative : Bool} (h : SignText sign negative)
    (hbody : Stops isSign body) : splitSign (sign ++ body) = (negative, body) := by
  cases h with
  | plus => rfl
  | minus => rfl
  | none =>
    show Decimal.splitSign body = _
    unfold Decimal.splitSign
    split
    · exact absurd (hbody '+' rfl) (by decide)
    · exact absurd (hbody '-' rfl) (by decide)
    · rfl

theorem not_isSign_of_isPlainChar {c : Char} (hc : isPlainChar c = true) : isSign c = false := by
  refine Bool.eq_false_iff.mpr fun hsign => ?_
  rcases isSign_iff.mp hsign with rfl | rfl
  · exact absurd hc (by decide)
  · exact absurd hc (by decide)

theorem stops_of_digits {ds : List Char} (hds : ∀ c ∈ ds, c.isDigit = true) :
    Stops isSign ds := by
  intro c hc
  exact not_isSign_of_isPlainChar (isPlainChar_of_isDigit (hds c (List.mem_of_mem_head? hc)))

/-! ## Exponents -/

theorem readExponent?_eq_some_iff {cs : List Char} {e : Int} :
    readExponent? cs = some e ↔ ExponentText cs e := by
  constructor
  · intro h
    cases cs with
    | nil =>
      cases h
      exact .none
    | cons c cs =>
      rw [readExponent?] at h
      split at h
      · next hmark =>
        dsimp only at h
        split at h
        · next hds =>
          obtain ⟨sign, hsign, hcs⟩ := splitSign_spec cs
          cases h
          have htext := ExponentText.written hmark hsign hds.1 (List.all_eq_true.mp hds.2)
          rwa [← hcs] at htext
        · cases h
      · cases h
  · intro h
    cases h with
    | none => rfl
    | @written mark sign ds negative hmark hsign hne hds =>
      rw [readExponent?, if_pos hmark, hsign.splitSign (stops_of_digits hds)]
      exact if_pos ⟨hne, List.all_eq_true.mpr hds⟩

/-- An exponent starts with its mark. -/
theorem ExponentText.stops {cs : List Char} {e : Int} (h : ExponentText cs e) {p : Char → Bool}
    (hlower : p 'e' = false) (hupper : p 'E' = false) : Stops p cs := by
  cases h with
  | none => exact stops_nil _
  | written hmark _ _ _ =>
    rcases hmark with rfl | rfl
    · exact stops_cons hlower _
    · exact stops_cons hupper _

/-! ## Numbers -/

theorem splitDigits_spec (cs : List Char) : (∀ c ∈ (splitDigits cs).1, c.isDigit = true) ∧
    cs = (splitDigits cs).1 ++ (splitDigits cs).2 :=
  ⟨List.all_eq_true.mp List.all_takeWhile, List.takeWhile_append_dropWhile.symm⟩

/-- A fraction starts with a point. -/
theorem splitFraction_spec (cs : List Char) : splitFraction cs = ([], cs) ∨
    ((∀ c ∈ (splitFraction cs).1, c.isDigit = true) ∧
      cs = '.' :: ((splitFraction cs).1 ++ (splitFraction cs).2)) := by
  unfold splitFraction
  split
  · next rest =>
    obtain ⟨hdigits, hrest⟩ := splitDigits_spec rest
    exact .inr ⟨hdigits, congrArg _ hrest⟩
  · exact .inl rfl

/-- What a successful reading was made of. -/
theorem exists_of_readDecimal? {cs : List Char} {v : Decimal} (h : readDecimal? cs = some v) :
    ∃ ds es d e, cs = ds ++ es ∧ DigitsText ds d ∧ ExponentText es e ∧
      v = ⟨d.digits, e + d.exponent⟩ := by
  obtain ⟨hwhole, hcs⟩ := splitDigits_spec cs
  unfold readDecimal? at h
  generalize splitDigits cs = p at *
  obtain ⟨whole, rest⟩ := p
  have hsplit := splitFraction_spec rest
  dsimp only at h hwhole hcs
  generalize splitFraction rest = q at *
  obtain ⟨fraction, es⟩ := q
  dsimp only at h hsplit
  split at h
  · cases h
  · next hne =>
    obtain ⟨e, he, rfl⟩ := Option.map_eq_some_iff.mp h
    have hexponent := readExponent?_eq_some_iff.mp he
    rcases hsplit with hnone | ⟨hfraction, hrest⟩
    · cases hnone
      rw [List.append_nil]
      exact ⟨whole, _, _, e, hcs, .whole (fun h0 => hne ⟨h0, rfl⟩) hwhole, hexponent, rfl⟩
    · refine ⟨whole ++ '.' :: fraction, es, _, e, ?_,
        .pointed (Decidable.not_and_iff_or_not.mp hne) hwhole hfraction, hexponent, rfl⟩
      rw [hcs, hrest, List.append_assoc, List.cons_append]

theorem readDecimal?_of_text {ds es : List Char} {d : Decimal} {e : Int} (hd : DigitsText ds d)
    (he : ExponentText es e) : readDecimal? (ds ++ es) = some ⟨d.digits, e + d.exponent⟩ := by
  have hexponent := readExponent?_eq_some_iff.mpr he
  have hplain : Stops isPlainChar es := he.stops rfl rfl
  cases hd with
  | whole hne hds =>
    rw [(PlainText.whole hne hds).readDecimal? hplain, hexponent]
    rfl
  | @pointed ds fs hne hds hfs =>
    cases ds with
    | cons c ds =>
      rw [(PlainText.fraction (List.cons_ne_nil c ds) hds hfs).readDecimal? hplain, hexponent]
      rfl
    | nil =>
      -- the only shape that a plain text does not have: nothing stands before the point
      have hne : fs ≠ [] := hne.resolve_left fun h => h rfl
      have hdigit : Stops Char.isDigit es := he.stops rfl rfl
      have hsplit : splitFraction ('.' :: (fs ++ es)) = (fs, es) := by
        rw [splitFraction, splitDigits, takeWhile_of_stops hfs hdigit, dropWhile_of_stops hfs hdigit]
      have hwhole : splitDigits ('.' :: (fs ++ es)) = ([], '.' :: (fs ++ es)) := rfl
      unfold readDecimal?
      rw [List.nil_append, List.cons_append]
      simp only [hwhole, hsplit]
      rw [if_neg fun h => hne h.2, hexponent]
      rfl

theorem readDecimal?_eq_some_iff {cs : List Char} {v : Decimal} :
    readDecimal? cs = some v ↔ ∃ ds es d e, cs = ds ++ es ∧ DigitsText ds d ∧ ExponentText es e ∧
      v = ⟨d.digits, e + d.exponent⟩ := by
  refine ⟨exists_of_readDecimal?, ?_⟩
  rintro ⟨ds, es, d, e, rfl, hd, he, rfl⟩
  exact readDecimal?_of_text hd he

theorem DigitsText.isPlainChar {cs : List Char} {d : Decimal} (h : DigitsText cs d) :
    ∀ c ∈ cs, isPlainChar c = true := by
  cases h with
  | whole _ hds => exact fun c hc => isPlainChar_of_isDigit (hds c hc)
  | pointed _ hds hfs => exact isPlainChar_pointed hds hfs

theorem DigitsText.ne_nil {cs : List Char} {d : Decimal} (h : DigitsText cs d) : cs ≠ [] := by
  cases h with
  | whole hne _ => exact hne
  | pointed _ _ _ => simp

/-! ## Names -/

theorem readName?_eq_some_iff {cs : List Char} {n : Numeral} :
    readName? cs = some n ↔ NameText cs n := by
  constructor
  · intro h
    unfold readName? at h
    dsimp only at h
    split at h
    · next hname =>
      cases h
      rcases hname with hname | hname
      · exact .inf hname
      · exact .infinity hname
    · split at h
      · next hname =>
        cases h
        exact .nan hname
      · cases h
  · intro h
    unfold readName?
    cases h with
    | inf h => rw [h]; rfl
    | infinity h => rw [h]; rfl
    | nan h => rw [h]; rfl

/-- A sign is its own lower case, so it is in no spelling of a name without it. -/
theorem not_isSign_of_map_toLower {cs name : List Char} (h : cs.map Char.toLower = name)
    (hplus : '+' ∉ name) (hminus : '-' ∉ name) : ∀ c ∈ cs, isSign c = false := by
  intro c hc
  have hmem : c.toLower ∈ name := h ▸ List.mem_map_of_mem hc
  refine Bool.eq_false_iff.mpr fun hsign => ?_
  rcases isSign_iff.mp hsign with rfl | rfl
  · exact absurd hmem hplus
  · exact absurd hmem hminus

/-- The characters that a literal can end with. -/
def endsLiteral (c : Char) : Bool := isPlainChar c || ['f', 'y', 'n'].contains c.toLower

/-- The text ends as a literal can. -/
def EndsLiteral (cs : List Char) : Prop := ∃ c, cs.getLast? = some c ∧ endsLiteral c = true

namespace EndsLiteral

variable {cs : List Char}

theorem of_plain (hne : cs ≠ []) (hcs : ∀ c ∈ cs, isPlainChar c = true) : EndsLiteral cs := by
  refine ⟨cs.getLast hne, List.getLast?_eq_some_getLast hne, ?_⟩
  rw [endsLiteral, hcs _ (List.getLast_mem hne), Bool.true_or]

theorem of_map_toLower {name : List Char} {d : Char} (h : cs.map Char.toLower = name)
    (hlast : name.getLast? = some d) (hd : ['f', 'y', 'n'].contains d = true) : EndsLiteral cs := by
  rw [← h, List.getLast?_map] at hlast
  obtain ⟨c, hc, rfl⟩ := Option.map_eq_some_iff.mp hlast
  exact ⟨c, hc, by rw [endsLiteral, hd, Bool.or_true]⟩

theorem append (h : EndsLiteral cs) (front : List Char) : EndsLiteral (front ++ cs) := by
  obtain ⟨c, hc, hends⟩ := h
  exact ⟨c, by rw [List.getLast?_append, hc, Option.some_or], hends⟩

theorem ne_nil (h : EndsLiteral cs) : cs ≠ [] := by
  obtain ⟨c, hc, -⟩ := h
  rintro rfl
  cases hc

end EndsLiteral

namespace NameText

variable {cs : List Char} {n : Numeral}

theorem not_isSign (h : NameText cs n) : ∀ c ∈ cs, isSign c = false := by
  cases h with
  | inf h => exact not_isSign_of_map_toLower h (by decide) (by decide)
  | infinity h => exact not_isSign_of_map_toLower h (by decide) (by decide)
  | nan h => exact not_isSign_of_map_toLower h (by decide) (by decide)

theorem endsLiteral (h : NameText cs n) : EndsLiteral cs := by
  cases h with
  | inf h => exact .of_map_toLower h rfl rfl
  | infinity h => exact .of_map_toLower h rfl rfl
  | nan h => exact .of_map_toLower h rfl rfl

end NameText

/-! ## Literals -/

namespace NumeralText

variable {cs : List Char} {n : Numeral}

/-- A literal has one sign in front at most. -/
theorem stops (h : NumeralText cs n) : Stops isSign cs := by
  cases h with
  | name h =>
    intro c hc
    exact h.not_isSign c (List.mem_of_mem_head? hc)
  | number hd _ =>
    refine Stops.append (fun c hc => ?_) hd.ne_nil _
    exact not_isSign_of_isPlainChar (hd.isPlainChar c (List.mem_of_mem_head? hc))

theorem endsLiteral (h : NumeralText cs n) : EndsLiteral cs := by
  cases h with
  | name h => exact h.endsLiteral
  | number hd he =>
    cases he with
    | none =>
      rw [List.append_nil]
      exact .of_plain hd.ne_nil hd.isPlainChar
    | @written mark sign ds _ _ _ hne hds =>
      have hdigits : EndsLiteral ds := .of_plain hne fun c hc => isPlainChar_of_isDigit (hds c hc)
      rw [← List.cons_append]
      exact (hdigits.append _).append _

theorem read? (h : NumeralText cs n) :
    (readName? cs).or ((readDecimal? cs).map Numeral.number) = some n := by
  cases h with
  | name h => rw [readName?_eq_some_iff.mpr h, Option.some_or]
  | @number ds es d e hd he =>
    have hname : readName? (ds ++ es) = none := by
      obtain ⟨c, rest, rfl⟩ := List.exists_cons_of_ne_nil hd.ne_nil
      exact readName?_of_isPlainChar (hd.isPlainChar c List.mem_cons_self) _
    have hdecimal := readDecimal?_eq_some_iff.mpr ⟨ds, es, d, e, rfl, hd, he, rfl⟩
    rw [hname, hdecimal, Option.none_or, Option.map_some]

end NumeralText

/-- **A text reads as a literal exactly if the grammar derives it.** -/
theorem Literal.read?_eq_some_iff {cs : List Char} {l : Literal} :
    Literal.read? cs = some l ↔ LiteralText cs l := by
  constructor
  · intro h
    obtain ⟨sign, hsign, hcs⟩ := splitSign_spec cs
    rw [hcs]
    unfold Literal.read? at h
    generalize Decimal.splitSign cs = p at *
    obtain ⟨negative, body⟩ := p
    obtain ⟨n, hn, rfl⟩ := Option.map_eq_some_iff.mp h
    refine .signed hsign ?_
    rcases Option.or_eq_some_iff.mp hn with hname | ⟨-, hnumber⟩
    · exact .name (readName?_eq_some_iff.mp hname)
    · obtain ⟨v, hv, rfl⟩ := Option.map_eq_some_iff.mp hnumber
      obtain ⟨ds, es, d, e, rfl, hd, he, rfl⟩ := readDecimal?_eq_some_iff.mp hv
      exact .number hd he
  · rintro ⟨hsign, hbody⟩
    unfold Literal.read?
    rw [hsign.splitSign hbody.stops]
    dsimp only
    rw [hbody.read?, Option.map_some]

theorem readFloat?_eq_some_iff {cs : List Char} {x : Float} :
    readFloat? cs = some x ↔ ∃ l, LiteralText cs l ∧ l.value = x := by
  simp only [readFloat?, Option.map_eq_some_iff, Literal.read?_eq_some_iff]

/-- A plain text reads as the double it rounds to. -/
theorem PlainText.readFloat?_signed {cs : List Char} {d : Decimal} (h : PlainText cs d)
    (negative : Bool) : readFloat? (signed negative cs) = some (ofPattern negative d.pattern) :=
  readFloat?_eq_some_iff.mpr ⟨⟨negative, .number d⟩, h.numeralText.literalText negative, rfl⟩

/-- A text writes one literal at most. -/
theorem LiteralText.unique {cs : List Char} {l m : Literal} (hl : LiteralText cs l)
    (hm : LiteralText cs m) : l = m :=
  Option.some.inj ((Literal.read?_eq_some_iff.mpr hl).symm.trans (Literal.read?_eq_some_iff.mpr hm))

theorem LiteralText.endsLiteral {cs : List Char} {l : Literal} (h : LiteralText cs l) :
    EndsLiteral cs := by
  obtain ⟨_, hbody⟩ := h
  exact hbody.endsLiteral.append _

/-! ## Blanks -/

/-- The visible characters below 128 are not blank. -/
theorem not_isBlank_of_visible {c : Char} (hlow : 33 ≤ c.toNat) (hhigh : c.toNat ≤ 126) :
    Text.isBlank c = false := by
  simp only [Text.isBlank, Bool.or_eq_false_iff, Bool.and_eq_false_iff, decide_eq_false_iff_not,
    beq_eq_false_iff_ne]
  omega

theorem not_isBlank_of_isDigit {c : Char} (hc : c.isDigit = true) : Text.isBlank c = false := by
  simp only [Char.isDigit, Bool.and_eq_true, decide_eq_true_eq, ge_iff_le,
    UInt32.le_iff_toNat_le] at hc
  refine not_isBlank_of_visible ?_ ?_
  · exact Nat.le_trans (by decide) hc.1
  · exact Nat.le_trans hc.2 (by decide)

theorem not_isBlank_of_map_toLower {cs name : List Char} (h : cs.map Char.toLower = name)
    (hname : name.all (fun c => !Text.isBlank c) = true) : ∀ c ∈ cs, Text.isBlank c = false := by
  intro c hc
  have hmem : c.toLower ∈ name := h ▸ List.mem_map_of_mem hc
  by_cases hupper : c.val ≥ 'A'.val ∧ c.val ≤ 'Z'.val
  · rw [ge_iff_le, UInt32.le_iff_toNat_le, UInt32.le_iff_toNat_le] at hupper
    refine not_isBlank_of_visible ?_ ?_
    · exact Nat.le_trans (by decide) hupper.1
    · exact Nat.le_trans hupper.2 (by decide)
  · have hlower : c.toLower = c := dif_neg hupper
    rw [hlower] at hmem
    simpa using List.all_eq_true.mp hname c hmem

theorem SignText.not_isBlank {cs : List Char} {negative : Bool} (h : SignText cs negative) :
    ∀ c ∈ cs, Text.isBlank c = false := by
  intro c hc
  cases h with
  | none => cases hc
  | plus => rw [List.mem_singleton.mp hc]; rfl
  | minus => rw [List.mem_singleton.mp hc]; rfl

theorem ExponentText.not_isBlank {cs : List Char} {e : Int} (h : ExponentText cs e) :
    ∀ c ∈ cs, Text.isBlank c = false := by
  intro c hc
  cases h with
  | none => cases hc
  | written hmark hsign _ hds =>
    rcases List.mem_cons.mp hc with rfl | hc
    · rcases hmark with rfl | rfl
      · rfl
      · rfl
    · rcases List.mem_append.mp hc with hc | hc
      · exact hsign.not_isBlank c hc
      · exact not_isBlank_of_isDigit (hds c hc)

theorem NumeralText.not_isBlank {cs : List Char} {n : Numeral} (h : NumeralText cs n) :
    ∀ c ∈ cs, Text.isBlank c = false := by
  cases h with
  | name h =>
    cases h with
    | inf h => exact not_isBlank_of_map_toLower h rfl
    | infinity h => exact not_isBlank_of_map_toLower h rfl
    | nan h => exact not_isBlank_of_map_toLower h rfl
  | number hd he =>
    intro c hc
    rcases List.mem_append.mp hc with hc | hc
    · have hplain := hd.isPlainChar c hc
      rw [isPlainChar, Bool.or_eq_true, decide_eq_true_eq] at hplain
      rcases hplain with hdigit | rfl
      · exact not_isBlank_of_isDigit hdigit
      · rfl
    · exact he.not_isBlank c hc

/-- There are no blanks in a literal. -/
theorem LiteralText.not_isBlank {cs : List Char} {l : Literal} (h : LiteralText cs l) :
    ∀ c ∈ cs, Text.isBlank c = false := by
  obtain ⟨hsign, hbody⟩ := h
  intro c hc
  rcases List.mem_append.mp hc with hc | hc
  · exact hsign.not_isBlank c hc
  · exact hbody.not_isBlank c hc

end Pivotal.Decimal
