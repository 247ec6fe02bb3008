import Mathlib.Data.List.Forall2
import Pivotal.Proofs.Task.Comments
import Pivotal.Task.Reader

/-!
# Layouts of a document

A layout writes each title and each `key : token , token` pair of a sequence of sections on a line of
its own.  Spaces and tabs may stand around the marks, blanks of any kind at both ends of a line, and
blank lines anywhere.  `IsLayout sections text` says that `text` is one of the layouts of `sections`.

Removing comments undoes everything of a layout but the spaces around the marks
(`filterComments_of_layout`): what is left are the bare lines, one for each title and pair, and a
bare line is a solid text (`ItemText.solid`).
-/

namespace Pivotal.Task

open Text

/-! ## Words and tokens -/

/-- A letter or an underscore, then letters, digits and underscores. -/
def isWord (w : String) : Bool :=
  match w.toList with
  | [] => false
  | c :: cs => isWordStart c && cs.all isWordChar

/-- A text that can be written as a value: not empty, without blanks, commas and semicolons, and not
the start of a comment. -/
def isToken (t : String) : Bool :=
  t.toList ≠ [] && t.toList.all (fun c => !isBlank c && c ≠ ',' && c ≠ ';') &&
    !List.isPrefixOf ['/', '/'] t.toList

theorem isWordChar_iff (c : Char) : isWordChar c = true ↔
    (48 ≤ c.toNat ∧ c.toNat ≤ 57) ∨ (65 ≤ c.toNat ∧ c.toNat ≤ 90) ∨ c.toNat = 95 ∨
      (97 ≤ c.toNat ∧ c.toNat ≤ 122) := by
  have hunder : c = '_' ↔ c.toNat = 95 := by
    constructor
    · rintro rfl
      rfl
    · intro h
      rw [← Char.ofNat_toNat c, h]
  have hval : c.val.toNat = c.toNat := rfl
  have hends : 'A'.val.toNat = 65 ∧ 'Z'.val.toNat = 90 ∧ 'a'.val.toNat = 97 ∧
      'z'.val.toNat = 122 ∧ '0'.val.toNat = 48 ∧ '9'.val.toNat = 57 := by decide
  have halpha : c.isAlpha = (c.isUpper || c.isLower) := rfl
  have hupper : c.isUpper = decide (c.val ≥ 'A'.val ∧ c.val ≤ 'Z'.val) := rfl
  have hlower : c.isLower = (decide (c.val ≥ 'a'.val) && decide (c.val ≤ 'z'.val)) := rfl
  simp only [isWordChar, Char.isAlphanum, halpha, hupper, hlower, Char.isDigit, Bool.or_eq_true,
    Bool.and_eq_true, decide_eq_true_eq, UInt32.le_iff_toNat_le, hunder, ge_iff_le, hval, hends]
  omega

theorem not_isBlank_of_isWordChar {c : Char} (hc : isWordChar c = true) : isBlank c = false := by
  rw [isWordChar_iff] at hc
  simp only [isBlank, Bool.or_eq_false_iff, Bool.and_eq_false_iff, decide_eq_false_iff_not,
    beq_eq_false_iff_ne]
  omega

theorem isWordChar_of_isWordStart {c : Char} (hc : isWordStart c = true) : isWordChar c = true := by
  simp only [isWordStart, isWordChar, Char.isAlphanum, Bool.or_eq_true] at hc ⊢
  rcases hc with hc | hc
  · exact .inl (.inl hc)
  · exact .inr hc

/-- The first character of a word, the others, and what kind they are of. -/
theorem isWord_cases {w : String} (hw : isWord w = true) :
    ∃ c cs, w.toList = c :: cs ∧ isWordStart c = true ∧ ∀ d ∈ w.toList, isWordChar d = true := by
  unfold isWord at hw
  split at hw
  · cases hw
  · next c cs heq =>
    rw [Bool.and_eq_true, List.all_eq_true] at hw
    refine ⟨c, cs, heq, hw.1, fun d hd => ?_⟩
    rw [heq] at hd
    rcases List.mem_cons.mp hd with rfl | hd
    · exact isWordChar_of_isWordStart hw.1
    · exact hw.2 d hd

theorem ne_of_mem_word {w : String} (hw : isWord w = true) {c m : Char} (hc : c ∈ w.toList)
    (hm : isWordChar m = false) : c ≠ m := by
  obtain ⟨_, _, _, _, hall⟩ := isWord_cases hw
  rintro rfl
  rw [hall c hc] at hm
  cases hm

theorem solid_of_isWord {w : String} (hw : isWord w = true) : IsSolid w.toList := by
  obtain ⟨c, cs, heq, -, hall⟩ := isWord_cases hw
  refine .of_forall (by rw [heq]; exact List.cons_ne_nil c cs) fun d hd => ?_
  exact not_isBlank_of_isWordChar (hall d hd)

/-- What is known of the characters of a token. -/
theorem isToken_iff {t : String} : isToken t = true ↔
    t.toList ≠ [] ∧ (∀ c ∈ t.toList, isBlank c = false ∧ c ≠ ',' ∧ c ≠ ';') ∧
      ¬['/', '/'] <+: t.toList := by
  simp only [isToken, Bool.and_eq_true, decide_eq_true_eq, List.all_eq_true, Bool.not_eq_true',
    Bool.eq_false_iff, ne_eq, List.isPrefixOf_iff_prefix, and_assoc]

theorem solid_of_isToken {t : String} (ht : isToken t = true) : IsSolid t.toList := by
  rw [isToken_iff] at ht
  exact .of_forall ht.1 fun c hc => (ht.2.1 c hc).1

/-! ## Bare lines -/

/-- The texts of a list of tokens: commas between them, with spaces and tabs around the commas. -/
inductive ValuesText : List String → List Char → Prop
  | last {t : String} (ht : isToken t = true) : ValuesText [t] t.toList
  | next {t : String} {ts : List String} {l r cs : List Char} (ht : isToken t = true)
      (hl : ∀ c ∈ l, isSpace c = true) (hr : ∀ c ∈ r, isSpace c = true) (hrest : ValuesText ts cs) :
      ValuesText (t :: ts) (t.toList ++ (l ++ ',' :: (r ++ cs)))

/-- A line of a document. -/
inductive Item where
  | title (name : String)
  | pair (key : String) (tokens : List String)

/-- The texts of a line without the blanks at its ends. -/
inductive ItemText : Item → List Char → Prop
  | title {name : String} (hname : isWord name = true) : ItemText (.title name) name.toList
  | pair {key : String} {tokens : List String} {l r cs : List Char} (hkey : isWord key = true)
      (hl : ∀ c ∈ l, isSpace c = true) (hr : ∀ c ∈ r, isSpace c = true)
      (hvalues : ValuesText tokens cs) :
      ItemText (.pair key tokens) (key.toList ++ (l ++ ':' :: (r ++ cs)))

/-- A character that stands in no bare line: the line feed and the semicolon. -/
def isBarred (c : Char) : Bool := c = '\n' || c = ';'

theorem ne_slash_of_isSpace {c : Char} (hc : isSpace c = true) : c ≠ '/' := by
  rintro rfl
  exact absurd hc (by decide)

theorem not_isBarred_of_isSpace {c : Char} (hc : isSpace c = true) : isBarred c = false := by
  simp only [isSpace, Bool.or_eq_true, decide_eq_true_eq] at hc
  rcases hc with rfl | rfl
  · decide
  · decide

theorem not_isBarred_of_token {t : String} (ht : isToken t = true) :
    ∀ c ∈ t.toList, isBarred c = false := by
  intro c hc
  obtain ⟨hblank, -, hsemicolon⟩ := (isToken_iff.mp ht).2.1 c hc
  have hfeed : c ≠ '\n' := by
    rintro rfl
    exact absurd hblank (by decide)
  simp [isBarred, hfeed, hsemicolon]

theorem not_isBarred_of_word {w : String} (hw : isWord w = true) :
    ∀ c ∈ w.toList, isBarred c = false := by
  intro c hc
  have hfeed : c ≠ '\n' := ne_of_mem_word hw hc (by decide)
  have hsemicolon : c ≠ ';' := ne_of_mem_word hw hc (by decide)
  simp [isBarred, hfeed, hsemicolon]

/-- Spaces, a mark and spaces between two texts. -/
theorem not_isBarred_join {xs l r cs : List Char} {m : Char} (hxs : ∀ c ∈ xs, isBarred c = false)
    (hl : ∀ c ∈ l, isSpace c = true) (hm : isBarred m = false) (hr : ∀ c ∈ r, isSpace c = true)
    (hcs : ∀ c ∈ cs, isBarred c = false) :
    ∀ c ∈ xs ++ (l ++ m :: (r ++ cs)), isBarred c = false := by
  intro c hc
  simp only [List.mem_append, List.mem_cons] at hc
  rcases hc with hc | hc | rfl | hc | hc
  · exact hxs c hc
  · exact not_isBarred_of_isSpace (hl c hc)
  · exact hm
  · exact not_isBarred_of_isSpace (hr c hc)
  · exact hcs c hc

namespace ValuesText

variable {ts : List String} {cs : List Char}

theorem solid (h : ValuesText ts cs) : IsSolid cs := by
  induction h with
  | last ht => exact solid_of_isToken ht
  | @next t ts l r cs ht _ _ _ ih =>
    have hsolid := (solid_of_isToken ht).append ih (l ++ ',' :: r)
    rwa [List.append_assoc, List.cons_append] at hsolid

theorem not_isBarred (h : ValuesText ts cs) : ∀ c ∈ cs, isBarred c = false := by
  induction h with
  | last ht => exact not_isBarred_of_token ht
  | next ht hl hr _ ih => exact not_isBarred_join (not_isBarred_of_token ht) hl (by decide) hr ih

theorem uncut (h : ValuesText ts cs) {rest : List Char} (hrest : Uncut rest)
    (hhead : rest.head? ≠ some '/') : Uncut (cs ++ rest) := by
  induction h with
  | last ht =>
    obtain ⟨-, hchars, hstart⟩ := isToken_iff.mp ht
    exact hrest.append_solid (fun c hc => (hchars c hc).1) hstart hhead
  | @next t ts l r cs ht hl hr _ ih =>
    obtain ⟨-, hchars, hstart⟩ := isToken_iff.mp ht
    have hafter : Uncut (l ++ ',' :: (r ++ (cs ++ rest))) :=
      ((ih.append fun c hc => ne_slash_of_isSpace (hr c hc)).cons (by decide)).append
        fun c hc => ne_slash_of_isSpace (hl c hc)
    have hnext : (l ++ ',' :: (r ++ (cs ++ rest))).head? ≠ some '/' := by
      cases l with
      | nil => simp
      | cons c l =>
        intro hslash
        exact ne_slash_of_isSpace (hl c List.mem_cons_self) (Option.some.inj hslash)
    have huncut := hafter.append_solid (fun c hc => (hchars c hc).1) hstart hnext
    simpa only [List.append_assoc, List.cons_append] using huncut

end ValuesText

namespace ItemText

variable {i : Item} {cs : List Char}

theorem solid (h : ItemText i cs) : IsSolid cs := by
  cases h with
  | title hname => exact solid_of_isWord hname
  | @pair key tokens l r cs hkey _ _ hvalues =>
    have hsolid := (solid_of_isWord hkey).append hvalues.solid (l ++ ':' :: r)
    rwa [List.append_assoc, List.cons_append] at hsolid

theorem not_isBarred (h : ItemText i cs) : ∀ c ∈ cs, isBarred c = false := by
  cases h with
  | title hname => exact not_isBarred_of_word hname
  | pair hkey hl hr hvalues =>
    exact not_isBarred_join (not_isBarred_of_word hkey) hl (by decide) hr hvalues.not_isBarred

theorem uncut (h : ItemText i cs) {rest : List Char} (hrest : Uncut rest)
    (hhead : rest.head? ≠ some '/') : Uncut (cs ++ rest) := by
  cases h with
  | title hname => exact hrest.append fun c hc => ne_of_mem_word hname hc (by decide)
  | @pair key tokens l r cs hkey hl hr hvalues =>
    have huncut : Uncut (key.toList ++ (l ++ ':' :: (r ++ (cs ++ rest)))) :=
      ((((hvalues.uncut hrest hhead).append fun c hc => ne_slash_of_isSpace (hr c hc)).cons
        (by decide)).append fun c hc => ne_slash_of_isSpace (hl c hc)).append
          fun c hc => ne_of_mem_word hkey hc (by decide)
    simpa only [List.append_assoc, List.cons_append] using huncut

/-- A bare line starts with a word. -/
theorem start (h : ItemText i cs) : ∃ c, cs.head? = some c ∧ isWordStart c = true := by
  cases h with
  | title hname =>
    obtain ⟨c, ds, heq, hstart, -⟩ := isWord_cases hname
    exact ⟨c, by rw [heq]; rfl, hstart⟩
  | pair hkey _ _ _ =>
    obtain ⟨c, ds, heq, hstart, -⟩ := isWord_cases hkey
    exact ⟨c, by rw [heq]; rfl, hstart⟩

end ItemText

/-! ## Lines with blanks -/

/-- Blanks that stay on their line. -/
def isPadding (c : Char) : Bool := isBlank c && c ≠ '\n'

/-- Each item on a line of its own, with blanks around it, and blank lines between them. -/
inductive Laid : List Item → List (List Char) → Prop
  | done : Laid [] []
  | blank {items : List Item} {lines : List (List Char)} {line : List Char}
      (hline : ∀ c ∈ line, isPadding c = true) (hrest : Laid items lines) :
      Laid items (line :: lines)
  | item {items : List Item} {lines : List (List Char)} {i : Item} {l cs r : List Char}
      (hl : ∀ c ∈ l, isPadding c = true) (hitem : ItemText i cs) (hr : ∀ c ∈ r, isPadding c = true)
      (hrest : Laid items lines) : Laid (i :: items) ((l ++ (cs ++ r)) :: lines)

/-- The lines of a sequence of sections. -/
def itemsOf (sections : List (WrittenSection String)) : List Item :=
  sections.flatMap fun s => .title s.title :: s.pairs.map fun p => .pair p.1 p.2

/-- The text is a layout of the sections. -/
def IsLayout (sections : List (WrittenSection String)) (text : List Char) : Prop :=
  ∃ lines, Laid (itemsOf sections) lines ∧ text = ['\n'].intercalate lines

theorem isPadding_iff {c : Char} : isPadding c = true ↔ isBlank c = true ∧ c ≠ '\n' := by
  simp [isPadding]

/-- Padding contains neither slashes nor semicolons. -/
theorem ne_of_isPadding {c m : Char} (hc : isPadding c = true) (hm : isBlank m = false) : c ≠ m := by
  rintro rfl
  rw [(isPadding_iff.mp hc).1] at hm
  cases hm

theorem uncut_padding {r : List Char} (hr : ∀ c ∈ r, isPadding c = true) : Uncut r := by
  have h := uncut_nil.append fun c hc => ne_of_isPadding (hr c hc) (m := '/') (by decide)
  rwa [List.append_nil] at h

theorem trim_cutComment_padding {line : List Char} (hline : ∀ c ∈ line, isPadding c = true) :
    trim (cutComment line) = [] := by
  have hsemicolon : ';' ∉ line := fun h => ne_of_isPadding (hline _ h) (m := ';') (by decide) rfl
  rw [cutComment_eq_self hsemicolon (uncut_padding hline)]
  exact trim_of_blank fun c hc => (isPadding_iff.mp (hline c hc)).1

theorem head?_padding {r : List Char} (hr : ∀ c ∈ r, isPadding c = true) : r.head? ≠ some '/' :=
  fun h => ne_of_isPadding (hr _ (List.mem_of_mem_head? h)) (m := '/') (by decide) rfl

/-- A line without a comment is left bare. -/
theorem trim_cutComment_padded {l cs r : List Char} (hl : ∀ c ∈ l, isPadding c = true)
    (hr : ∀ c ∈ r, isPadding c = true) (hsolid : IsSolid cs)
    (hbarred : ∀ c ∈ cs, isBarred c = false) (huncut : Uncut (cs ++ r)) :
    trim (cutComment (l ++ (cs ++ r))) = cs := by
  have hsemicolon : ';' ∉ l ++ (cs ++ r) := by
    simp only [List.mem_append, not_or]
    refine ⟨fun h => ?_, fun h => ?_, fun h => ?_⟩
    · exact ne_of_isPadding (hl _ h) (m := ';') (by decide) rfl
    · exact absurd (hbarred _ h) (by decide)
    · exact ne_of_isPadding (hr _ h) (m := ';') (by decide) rfl
  rw [cutComment_eq_self hsemicolon (huncut.append fun c hc => ne_of_isPadding (hl c hc) (by decide))]
  exact trim_pad (fun c hc => (isPadding_iff.mp (hl c hc)).1)
    (fun c hc => (isPadding_iff.mp (hr c hc)).1) hsolid

/-- A line with an item is left bare. -/
theorem trim_cutComment_item {i : Item} {l cs r : List Char} (hl : ∀ c ∈ l, isPadding c = true)
    (hitem : ItemText i cs) (hr : ∀ c ∈ r, isPadding c = true) :
    trim (cutComment (l ++ (cs ++ r))) = cs :=
  trim_cutComment_padded hl hr hitem.solid hitem.not_isBarred
    (hitem.uncut (uncut_padding hr) (head?_padding hr))

/-- A line that starts with a word is kept. -/
theorem not_isDropped_of_start {cs : List Char} {c : Char} (hhead : cs.head? = some c)
    (hstart : isWordStart c = true) : isDropped cs = false := by
  have hne : ∀ m, isWordStart m = false → c ≠ m := by
    rintro m hm rfl
    rw [hstart] at hm
    cases hm
  cases cs with
  | nil => cases hhead
  | cons d cs =>
    cases hhead
    have hslash := hne '/' (by decide)
    have hhash := hne '#' (by decide)
    have hpercent := hne '%' (by decide)
    simp [isDropped, List.isPrefixOf, hslash.symm, hhash, hpercent]

theorem ItemText.not_isDropped {i : Item} {cs : List Char} (h : ItemText i cs) :
    isDropped cs = false := by
  obtain ⟨c, hhead, hstart⟩ := h.start
  exact not_isDropped_of_start hhead hstart

namespace Laid

variable {items : List Item} {lines : List (List Char)}

theorem no_feed (h : Laid items lines) : ∀ line ∈ lines, '\n' ∉ line := by
  induction h with
  | done => exact fun line hline => absurd hline List.not_mem_nil
  | blank hline _ ih =>
    intro line hmem
    rcases List.mem_cons.mp hmem with rfl | hmem
    · exact fun h => (isPadding_iff.mp (hline _ h)).2 rfl
    · exact ih line hmem
  | item hl hitem hr _ ih =>
    intro line hmem
    rcases List.mem_cons.mp hmem with rfl | hmem
    · simp only [List.mem_append, not_or]
      refine ⟨fun h => (isPadding_iff.mp (hl _ h)).2 rfl, fun h => ?_,
        fun h => (isPadding_iff.mp (hr _ h)).2 rfl⟩
      exact absurd (hitem.not_isBarred _ h) (by decide)
    · exact ih line hmem

/-- Cutting, trimming and dropping leaves the bare lines of the items. -/
theorem kept (h : Laid items lines) :
    List.Forall₂ ItemText items
      ((lines.map fun line => trim (cutComment line)).filter fun line => !isDropped line) := by
  induction h with
  | done => exact .nil
  | blank hline _ ih =>
    rw [List.map_cons, trim_cutComment_padding hline]
    exact ih
  | item hl hitem hr _ ih =>
    rw [List.map_cons, trim_cutComment_item hl hitem hr, List.filter_cons, hitem.not_isDropped]
    exact .cons hitem ih

end Laid

/-- Removing comments from a layout leaves the bare lines of its items. -/
theorem filterComments_of_layout {sections : List (WrittenSection String)} {text : List Char}
    (h : IsLayout sections text) :
    ∃ bare, List.Forall₂ ItemText (itemsOf sections) bare ∧
      filterComments text = ['\n'].intercalate bare := by
  obtain ⟨lines, hlaid, rfl⟩ := h
  exact ⟨_, hlaid.kept, by rw [filterComments, keptLines_intercalate hlaid.no_feed]⟩

end Pivotal.Task
