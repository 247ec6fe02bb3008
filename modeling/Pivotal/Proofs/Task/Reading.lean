import Pivotal.Proofs.Task.Layout

/-!
# Reading bare lines

Each reader finds again what was written, provided the text behind it stops it: a word before
anything but a word character (`readWord_append`), a token before a blank, a comma or a semicolon
(`ReadsTokens`), a list of values before the end of the line (`readValues_append`).  A pair ends with
its line, so the pairs of a section end where a line has no mark behind its first word, and that is a
title (`readPair_title`); sections end with the text.  `readSections_bare` puts these together.

Nothing here depends on what a token becomes: `f` is any function of tokens that the reader of values
computes.
-/

namespace Pivotal.Task

open Text

/-! ## Repetition -/

section Repetition

variable {α : Type} {item : Reader α}

theorem many_stop {cs : List Char} {f : Failure} (h : item cs = .error f) :
    many item cs = .ok ([], cs) := by
  rw [many, h]

theorem many_step {cs rest rest' : List Char} {x : α} {xs : List α} (h : item cs = .ok (x, rest))
    (hlt : rest.length < cs.length) (hrest : many item rest = .ok (xs, rest')) :
    many item cs = .ok (x :: xs, rest') := by
  rw [many, h]
  simp only [if_pos hlt, hrest]

/-- One item at least was read, so it makes no difference that one was asked for. -/
theorem many1_of_many {cs rest : List Char} {x : α} {xs : List α}
    (h : many item cs = .ok (x :: xs, rest)) : many1 item cs = .ok (x :: xs, rest) := by
  rw [many] at h
  unfold many1
  cases hitem : item cs with
  | error f => rw [hitem] at h; cases h
  | ok p =>
    obtain ⟨y, rest'⟩ := p
    simp only [hitem] at h ⊢
    split at h
    · split at h
      · cases h
      · next ys rest'' hmany =>
        cases h
        rfl
    · cases h

end Repetition

/-! ## Marks, words and tokens -/

/-- What follows is the end of the line. -/
def EndsLine (rest : List Char) : Prop := ∀ c ∈ rest.head?, c = '\n'

theorem EndsLine.stops {rest : List Char} (h : EndsLine rest) {p : Char → Bool}
    (hp : p '\n' = false) : Stops p rest := fun c hc => h c hc ▸ hp

theorem readMark_append {l r rest : List Char} {m : Char} (hl : ∀ c ∈ l, isSpace c = true)
    (hm : isSpace m = false) (hr : ∀ c ∈ r, isSpace c = true) (hrest : Stops isSpace rest) :
    readMark m (l ++ m :: (r ++ rest)) = .ok ((), rest) := by
  unfold readMark skipSpaces
  rw [dropWhile_of_stops hl (stops_cons hm _)]
  simp only [if_true, dropWhile_of_stops hr hrest]

theorem readMark_endsLine {rest : List Char} {m : Char} (h : EndsLine rest) (hm : m ≠ '\n') :
    ∃ f, readMark m rest = .error f := by
  unfold readMark skipSpaces
  rw [dropWhile_eq_self (h.stops (by decide))]
  cases rest with
  | nil => exact ⟨_, rfl⟩
  | cons c cs =>
    obtain rfl := h c rfl
    exact ⟨⟨'\n' :: cs, .mark⟩, by simp only [if_neg hm.symm]⟩

theorem readWord_append {w : String} {rest : List Char} (hw : isWord w = true)
    (hrest : Stops isWordChar rest) : readWord (w.toList ++ rest) = .ok (w, rest) := by
  obtain ⟨c, cs, heq, hstart, hall⟩ := isWord_cases hw
  have hcs : ∀ d ∈ cs, isWordChar d = true := fun d hd =>
    hall d (heq ▸ List.mem_cons_of_mem c hd)
  rw [heq, List.cons_append, readWord, if_pos hstart, takeWhile_of_stops hcs hrest,
    dropWhile_of_stops hcs hrest, ← heq, String.ofList_toList]

variable {V : Type}

/-- The reader turns each token into `f` of it. -/
def ReadsTokens (value : Reader V) (f : String → V) : Prop :=
  ∀ t rest, isToken t = true → Stops isTokenChar rest → value (t.toList ++ rest) = .ok (f t, rest)

theorem isBlank_of_isGap {c : Char} (hc : isGap c = true) : isBlank c = true := by
  simp only [isGap, isSpace, Bool.or_eq_true, decide_eq_true_eq] at hc
  rcases hc with ((rfl | rfl) | rfl) | rfl
  · decide
  · decide
  · decide
  · decide

theorem isTokenChar_of_mem {t : String} (ht : isToken t = true) :
    ∀ c ∈ t.toList, isTokenChar c = true := by
  intro c hc
  obtain ⟨hblank, hcomma, hsemicolon⟩ := (isToken_iff.mp ht).2.1 c hc
  have hgap : isGap c = false := by
    cases hg : isGap c with
    | false => rfl
    | true => rw [isBlank_of_isGap hg] at hblank; cases hblank
  simp [isTokenChar, hgap, hcomma, hsemicolon]

theorem readsTokens_readToken : ReadsTokens readToken id := by
  intro t rest ht hrest
  unfold readToken
  rw [takeWhile_of_stops (isTokenChar_of_mem ht) hrest,
    dropWhile_of_stops (isTokenChar_of_mem ht) hrest, if_neg (isToken_iff.mp ht).1,
    String.ofList_toList]
  rfl

/-- The value of a token. -/
def tokenValue (t : String) : Value := Value.classify t.toList

theorem readsTokens_readValue : ReadsTokens readValue tokenValue := by
  intro t rest ht hrest
  unfold readValue
  rw [readsTokens_readToken t rest ht hrest]
  rfl

/-! ## Values and pairs -/

/-- A mark stops a scan that passes neither the mark nor the spaces before it. -/
theorem stops_mark {p : Char → Bool} {l : List Char} {m : Char}
    (hl : ∀ c ∈ l, isSpace c = true) (hspace : ∀ c, isSpace c = true → p c = false)
    (hm : p m = false) (rest : List Char) : Stops p (l ++ m :: rest) := by
  cases l with
  | nil => exact stops_cons hm rest
  | cons c l => exact stops_cons (hspace c (hl c List.mem_cons_self)) _

theorem not_isTokenChar_of_isSpace {c : Char} (hc : isSpace c = true) : isTokenChar c = false := by
  simp [isTokenChar, isGap, hc]

theorem not_isWordChar_of_isSpace {c : Char} (hc : isSpace c = true) : isWordChar c = false := by
  simp only [isSpace, Bool.or_eq_true, decide_eq_true_eq] at hc
  rcases hc with rfl | rfl
  · decide
  · decide

section Values

variable {value : Reader V} {f : String → V} (hvalue : ReadsTokens value f)

include hvalue

theorem andThen_mark_value {t : String} {l r rest : List Char} (ht : isToken t = true)
    (hl : ∀ c ∈ l, isSpace c = true) (hr : ∀ c ∈ r, isSpace c = true)
    (hrest : Stops isTokenChar rest) :
    andThen (readMark ',') value (l ++ ',' :: (r ++ (t.toList ++ rest))) = .ok (f t, rest) := by
  have hsolid := solid_of_isToken ht
  have hstart : Stops isSpace (t.toList ++ rest) :=
    (hsolid.start.mono fun c hc => isBlank_of_isGap (by simp [isGap, hc])).append hsolid.ne_nil rest
  unfold andThen
  rw [readMark_append hl (by decide) hr hstart]
  exact hvalue t rest ht hrest

/-- Values that each come after a comma, up to the end of the line. -/
theorem many_values {ts : List String} {cs l r rest : List Char} (h : ValuesText ts cs)
    (hl : ∀ c ∈ l, isSpace c = true) (hr : ∀ c ∈ r, isSpace c = true) (hrest : EndsLine rest) :
    many (andThen (readMark ',') value) (l ++ ',' :: (r ++ (cs ++ rest))) =
      .ok (ts.map f, rest) := by
  induction h generalizing l r with
  | last ht =>
    refine many_step (andThen_mark_value hvalue ht hl hr (hrest.stops (by decide))) ?_ ?_
    · simp only [List.length_append, List.length_cons]
      omega
    · obtain ⟨e, he⟩ := readMark_endsLine hrest (by decide : ',' ≠ '\n')
      exact many_stop (f := e) (by rw [andThen, he])
  | @next t ts l' r' cs ht hl' hr' _ ih =>
    have hstop : Stops isTokenChar (l' ++ ',' :: (r' ++ (cs ++ rest))) :=
      stops_mark hl' (fun c hc => not_isTokenChar_of_isSpace hc) (by decide) _
    have hitem := andThen_mark_value hvalue ht hl hr hstop
    simp only [List.append_assoc, List.cons_append]
    refine many_step hitem ?_ (ih hl' hr')
    simp only [List.length_append, List.length_cons]
    omega

theorem readValues_append {ts : List String} {cs rest : List Char} (h : ValuesText ts cs)
    (hrest : EndsLine rest) : readValues value (cs ++ rest) = .ok (ts.map f, rest) := by
  have hstart : Stops isGap (cs ++ rest) :=
    (h.solid.start.mono fun c hc => isBlank_of_isGap hc).append h.solid.ne_nil rest
  unfold readValues skipGaps separated
  rw [dropWhile_eq_self hstart]
  cases h with
  | last ht =>
    obtain ⟨e, he⟩ := readMark_endsLine hrest (by decide : ',' ≠ '\n')
    have hmany : many (andThen (readMark ',') value) rest = .ok ([], rest) :=
      many_stop (f := e) (by rw [andThen, he])
    rw [hvalue _ rest ht (hrest.stops (by decide))]
    simp only [hmany]
    rfl
  | @next t ts l r cs ht hl hr hvalues =>
    have hstop : Stops isTokenChar (l ++ ',' :: (r ++ (cs ++ rest))) :=
      stops_mark hl (fun c hc => not_isTokenChar_of_isSpace hc) (by decide) _
    simp only [List.append_assoc, List.cons_append]
    rw [hvalue t _ ht hstop]
    simp only [many_values hvalue hvalues hl hr hrest]
    rfl

theorem readPair_append {key : String} {ts : List String} {cs rest : List Char}
    (h : ItemText (.pair key ts) cs) (hrest : EndsLine rest) :
    readPair value (cs ++ rest) = .ok ((key, ts.map f), trim rest) := by
  cases h with
  | @pair _ _ l r cs hkey hl hr hvalues =>
    have hword : Stops isWordChar (l ++ ':' :: (r ++ (cs ++ rest))) :=
      stops_mark hl (fun c hc => not_isWordChar_of_isSpace hc) (by decide) _
    have hstart : Stops isSpace (cs ++ rest) :=
      (hvalues.solid.start.mono fun c hc => isBlank_of_isGap (by simp [isGap, hc])).append
        hvalues.solid.ne_nil rest
    unfold readPair
    simp only [List.append_assoc, List.cons_append]
    rw [readWord_append hkey hword]
    simp only [readMark_append hl (by decide : isSpace ':' = false) hr hstart,
      readValues_append hvalue hvalues hrest]

end Values

/-- A title is not taken for a key, since its line has no mark. -/
theorem readPair_title (value : Reader V) {name : String} {cs rest : List Char}
    (h : ItemText (.title name) cs) (hrest : EndsLine rest) :
    ∃ e, readPair value (cs ++ rest) = .error e := by
  cases h with
  | title hname =>
    obtain ⟨e, he⟩ := readMark_endsLine hrest (by decide : ':' ≠ '\n')
    refine ⟨e, ?_⟩
    unfold readPair
    rw [readWord_append hname (hrest.stops (by decide))]
    simp only [he]

/-! ## The text of bare lines -/

/-- The lines of a text after its first: each comes after a line feed. -/
def furtherLines (bare : List (List Char)) : List Char := bare.flatMap ('\n' :: ·)

theorem furtherLines_cons (b : List Char) (bare : List (List Char)) :
    furtherLines (b :: bare) = '\n' :: (b ++ furtherLines bare) := rfl

theorem intercalate_cons_eq (b : List Char) (bare : List (List Char)) :
    ['\n'].intercalate (b :: bare) = b ++ furtherLines bare := by
  induction bare generalizing b with
  | nil => simp [furtherLines]
  | cons c bare ih =>
    rw [List.intercalate_cons_cons, ih c, furtherLines_cons, List.append_assoc,
      List.singleton_append]

theorem endsLine_furtherLines (bare : List (List Char)) : EndsLine (furtherLines bare) := by
  cases bare with
  | nil => exact fun c hc => by cases hc
  | cons b bare => exact fun c hc => by cases hc; rfl

theorem solid_intercalate {b : List Char} {bare : List (List Char)} (hb : IsSolid b)
    (hbare : ∀ c ∈ bare, IsSolid c) : IsSolid (['\n'].intercalate (b :: bare)) := by
  induction bare generalizing b with
  | nil => rwa [List.intercalate_singleton]
  | cons c bare ih =>
    rw [List.intercalate_cons_cons, List.append_assoc]
    exact hb.append (ih (hbare c List.mem_cons_self)
      fun d hd => hbare d (List.mem_cons_of_mem c hd)) ['\n']

/-- Trimming what follows a line gives the text of the other lines. -/
theorem trim_furtherLines {bare : List (List Char)} (hbare : ∀ c ∈ bare, IsSolid c) :
    trim (furtherLines bare) = ['\n'].intercalate bare := by
  cases bare with
  | nil => rfl
  | cons b bare =>
    have hsolid := solid_intercalate (hbare b List.mem_cons_self)
      fun d hd => hbare d (List.mem_cons_of_mem b hd)
    have hfeed : ∀ c ∈ ['\n'], isBlank c = true := List.forall_mem_singleton.mpr (by decide)
    have htrim := trim_pad hfeed (r := []) (fun _ hc => absurd hc List.not_mem_nil) hsolid
    rw [List.append_nil, intercalate_cons_eq] at htrim
    rw [intercalate_cons_eq]
    exact htrim

theorem length_intercalate_le (bare : List (List Char)) :
    (['\n'].intercalate bare).length ≤ (furtherLines bare).length := by
  cases bare with
  | nil => exact Nat.le_refl _
  | cons b bare =>
    rw [intercalate_cons_eq, furtherLines_cons]
    exact Nat.le_succ _

theorem stops_intercalate {bare : List (List Char)} (hbare : ∀ c ∈ bare, IsSolid c)
    {p : Char → Bool} (hp : ∀ c, p c = true → isBlank c = true) :
    Stops p (['\n'].intercalate bare) := by
  cases bare with
  | nil => exact fun c hc => by cases hc
  | cons b bare =>
    have hsolid := solid_intercalate (hbare b List.mem_cons_self)
      fun d hd => hbare d (List.mem_cons_of_mem b hd)
    exact hsolid.start.mono hp

theorem solid_of_items {items : List Item} {bare : List (List Char)}
    (h : List.Forall₂ ItemText items bare) : ∀ c ∈ bare, IsSolid c := by
  induction h with
  | nil => exact fun c hc => absurd hc List.not_mem_nil
  | cons hitem _ ih =>
    intro c hc
    rcases List.mem_cons.mp hc with rfl | hc
    · exact hitem.solid
    · exact ih c hc

theorem skipSpaces_items {items : List Item} {bare : List (List Char)}
    (h : List.Forall₂ ItemText items bare) :
    skipSpaces (['\n'].intercalate bare) = ['\n'].intercalate bare :=
  dropWhile_eq_self (stops_intercalate (solid_of_items h)
    fun c hc => isBlank_of_isGap (by simp [isGap, hc]))

theorem skipGaps_items {items : List Item} {bare : List (List Char)}
    (h : List.Forall₂ ItemText items bare) :
    skipGaps (['\n'].intercalate bare) = ['\n'].intercalate bare :=
  dropWhile_eq_self (stops_intercalate (solid_of_items h) fun _ hc => isBlank_of_isGap hc)

/-! ## Sections -/

/-- A section with `f` of its tokens. -/
def WrittenSection.map {W : Type} (f : V → W) (s : WrittenSection V) : WrittenSection W :=
  ⟨s.title, s.pairs.map fun p => (p.1, p.2.map f)⟩

/-- A pair and the spaces behind it, as a section reads it. -/
def readPairSpaces (value : Reader V) : Reader (String × List V) := fun cs =>
  (readPair value cs).map fun (pair, rest) => (pair, skipSpaces rest)

/-- Where a section begins, or the text ends, there is no pair. -/
theorem readPairSpaces_sections (value : Reader V) {sections : List (WrittenSection String)}
    {bare : List (List Char)} (h : List.Forall₂ ItemText (itemsOf sections) bare) :
    ∃ e, readPairSpaces value (['\n'].intercalate bare) = .error e := by
  unfold readPairSpaces
  cases sections with
  | nil =>
    cases h
    exact ⟨_, rfl⟩
  | cons s sections =>
    cases h with
    | @cons _ b _ bare htitle _ =>
      obtain ⟨e, he⟩ := readPair_title value htitle (endsLine_furtherLines bare)
      exact ⟨e, by rw [intercalate_cons_eq, he]; rfl⟩

section Sections

variable {value : Reader V} {f : String → V} (hvalue : ReadsTokens value f)

include hvalue

theorem many_pairs {sections : List (WrittenSection String)} {pairs : List (String × List String)}
    {bare : List (List Char)}
    (h : List.Forall₂ ItemText (pairs.map (fun p => .pair p.1 p.2) ++ itemsOf sections) bare) :
    ∃ more, List.Forall₂ ItemText (itemsOf sections) more ∧
      (['\n'].intercalate more).length ≤ (['\n'].intercalate bare).length ∧
      many (readPairSpaces value) (['\n'].intercalate bare) =
        .ok (pairs.map fun p => (p.1, p.2.map f), ['\n'].intercalate more) := by
  induction pairs generalizing bare with
  | nil =>
    obtain ⟨e, he⟩ := readPairSpaces_sections value h
    exact ⟨bare, h, Nat.le_refl _, many_stop he⟩
  | cons p pairs ih =>
    cases h with
    | @cons _ b _ bare hpair hrest =>
      obtain ⟨more, hmore, hlen, hmany⟩ := ih hrest
      have hread : readPairSpaces value (b ++ furtherLines bare) =
          .ok ((p.1, p.2.map f), ['\n'].intercalate bare) := by
        unfold readPairSpaces
        rw [readPair_append hvalue hpair (endsLine_furtherLines bare),
          trim_furtherLines (solid_of_items hrest)]
        exact congrArg (fun cs => Except.ok ((p.1, p.2.map f), cs)) (skipSpaces_items hrest)
      have hb : 0 < b.length := List.length_pos_iff.mpr hpair.solid.ne_nil
      have hshort : (['\n'].intercalate bare).length < (b ++ furtherLines bare).length := by
        have hle := length_intercalate_le bare
        rw [List.length_append]
        omega
      rw [intercalate_cons_eq]
      exact ⟨more, hmore, by omega, many_step hread hshort hmany⟩

theorem readSection_bare {s : WrittenSection String} {sections : List (WrittenSection String)}
    {bare : List (List Char)} (hpairs : s.pairs ≠ [])
    (h : List.Forall₂ ItemText (itemsOf (s :: sections)) bare) :
    ∃ more, List.Forall₂ ItemText (itemsOf sections) more ∧
      (['\n'].intercalate more).length < (['\n'].intercalate bare).length ∧
      readSection value (['\n'].intercalate bare) = .ok (s.map f, ['\n'].intercalate more) := by
  have hspaces := skipSpaces_items h
  rw [itemsOf, List.flatMap_cons, List.cons_append] at h
  cases h with
  | @cons _ b _ bare htitle hrest =>
    obtain ⟨more, hmore, hlen, hmany⟩ := many_pairs hvalue hrest
    have hread : readTitle (b ++ furtherLines bare) = .ok (s.title, ['\n'].intercalate bare) := by
      cases htitle with
      | title hname =>
        unfold readTitle
        rw [readWord_append hname ((endsLine_furtherLines bare).stops (by decide)),
          ← trim_furtherLines (solid_of_items hrest)]
        rfl
    have hmany1 : many1 (readPairSpaces value) (['\n'].intercalate bare) =
        .ok (s.pairs.map fun p => (p.1, p.2.map f), ['\n'].intercalate more) := by
      cases hcons : s.pairs with
      | nil => exact absurd hcons hpairs
      | cons p pairs =>
        rw [hcons, List.map_cons] at hmany
        exact many1_of_many hmany
    refine ⟨more, hmore, ?_, ?_⟩
    · have hb : 0 < b.length := List.length_pos_iff.mpr htitle.solid.ne_nil
      have hle := length_intercalate_le bare
      rw [intercalate_cons_eq, List.length_append]
      omega
    · unfold readSection
      rw [hspaces, intercalate_cons_eq, hread]
      simp only [skipGaps_items hrest]
      unfold readPairSpaces at hmany1
      rw [hmany1]
      rfl

/-- The bare lines of sections, each with pairs, are read to the end. -/
theorem many_sections {sections : List (WrittenSection String)} {bare : List (List Char)}
    (hpairs : ∀ s ∈ sections, s.pairs ≠ []) (h : List.Forall₂ ItemText (itemsOf sections) bare) :
    many (fun cs => (readSection value (skipGaps cs)).map fun (s, rest) => (s, skipGaps rest))
      (['\n'].intercalate bare) = .ok (sections.map (·.map f), []) := by
  induction sections generalizing bare with
  | nil =>
    cases h
    exact many_stop (f := ⟨[], .mark⟩) rfl
  | cons s sections ih =>
    have hgaps := skipGaps_items h
    obtain ⟨more, hmore, hlen, hread⟩ := readSection_bare hvalue (hpairs s List.mem_cons_self) h
    have hrest := ih (fun s' hs => hpairs s' (List.mem_cons_of_mem s hs)) hmore
    refine many_step ?_ hlen hrest
    rw [hgaps, hread]
    exact congrArg (fun cs => Except.ok (s.map f, cs)) (skipGaps_items hmore)

theorem readSections_bare {sections : List (WrittenSection String)} {bare : List (List Char)}
    (hne : sections ≠ []) (hpairs : ∀ s ∈ sections, s.pairs ≠ [])
    (h : List.Forall₂ ItemText (itemsOf sections) bare) :
    readSections value (['\n'].intercalate bare) = .ok (sections.map (·.map f), []) := by
  have hmany := many_sections hvalue hpairs h
  cases sections with
  | nil => exact absurd rfl hne
  | cons s sections => exact many1_of_many hmany

end Sections

end Pivotal.Task
