import Mathlib.Data.List.Forall2
import Pivotal.Proofs.Task.Concatenation

/-!
# Keys without values

A list of values is looked for past the end of its line, so a key without values takes what it finds
on the next one.  Whatever the text, only the last key that is read can be without values
(`fullBeforeLast_of_readSections`): an empty list ends where no word begins, and so ends the reading.

A text with one title or pair on each line, where any key may be without values, is therefore read as
it is written exactly if no key but the last one is without them (`empty_key_last`).
-/

namespace Pivotal.Task

open Text

variable {V : Type}

/-- Every pair but the last one has values. -/
def FullBeforeLast (pairs : List (String × List V)) : Prop := ∀ p ∈ pairs.dropLast, p.2 ≠ []

/-! ## An empty list ends the reading -/

section Reading

variable {cs rest : List Char}

theorem readWord_of_stops (h : Stops isWordStart cs) : ∃ f, readWord cs = .error f := by
  cases cs with
  | nil => exact ⟨_, rfl⟩
  | cons c cs =>
    rw [readWord, if_neg (by rw [h c rfl]; exact Bool.false_ne_true)]
    exact ⟨_, rfl⟩

theorem readPair_of_stops (h : Stops isWordStart cs) : ∃ f, readPair readToken cs = .error f := by
  obtain ⟨f, hf⟩ := readWord_of_stops h
  exact ⟨f, by rw [readPair, hf]⟩

theorem readSectionGaps_of_stops (htight : Tight cs) (h : Stops isWordStart cs) :
    ∃ f, readSectionGaps readToken cs = .error f := by
  obtain ⟨f, hf⟩ := readWord_of_stops h
  refine ⟨f, ?_⟩
  rw [readSectionGaps_eq htight.start, readSection_eq, skipSpaces_of_stops htight.start, readTitle, hf]
  rfl

/-- What neither is a gap nor can stand in a token is a comma or a semicolon. -/
theorem eq_of_not_isTokenChar {c : Char} (hgap : isGap c = false) (htoken : isTokenChar c = false) :
    c = ',' ∨ c = ';' := by
  by_cases hc : c = ','
  · exact .inl hc
  · exact .inr (by simpa [isTokenChar, hgap, hc] using htoken)

/-- No values are found before the end of the text, or before a mark. -/
theorem stops_of_readValues (h : readValues readToken cs = .ok ([], rest)) :
    Stops isWordStart (trim rest) := by
  unfold readValues separated at h
  split at h
  · next f hf =>
    cases h
    have hgap : Stops isGap (skipGaps cs) := stops_dropWhile isGap cs
    cases hcs : skipGaps cs with
    | nil => exact stops_nil _
    | cons c ds =>
      rw [hcs] at hf hgap
      have htoken : isTokenChar c = false := by
        unfold readToken at hf
        split at hf
        · next hnil =>
          rw [List.takeWhile_cons] at hnil
          split at hnil
          · cases hnil
          · next hc => exact Bool.eq_false_iff.mpr hc
        · cases hf
      rcases eq_of_not_isTokenChar (hgap c rfl) htoken with rfl | rfl
      · rw [trim_cons (by decide)]
        exact stops_cons (by decide) _
      · rw [trim_cons (by decide)]
        exact stops_cons (by decide) _
  · split at h
    · cases h
    · cases h

theorem stops_of_readPair {p : String × List String} (h : readPair readToken cs = .ok (p, rest))
    (hp : p.2 = []) : Stops isWordStart rest := by
  obtain ⟨_, _, rest₃, -, -, hvalues, rfl⟩ := readPair_eq_ok h
  rw [hp] at hvalues
  exact stops_of_readValues hvalues

theorem fullBeforeLast_append {ps qs : List (String × List V)} (hps : ∀ p ∈ ps, p.2 ≠ [])
    (hqs : FullBeforeLast qs) : FullBeforeLast (ps ++ qs) := by
  intro p hp
  rw [List.dropLast_append] at hp
  split at hp
  · exact hps p (List.dropLast_subset ps hp)
  · rcases List.mem_append.mp hp with hp | hp
    · exact hps p hp
    · exact hqs p hp

theorem forall_of_fullBeforeLast {ps : List (String × List V)} (hps : FullBeforeLast ps)
    (hlast : EndsFull ps) : ∀ p ∈ ps, p.2 ≠ [] := by
  rcases List.eq_nil_or_concat ps with rfl | ⟨init, q, rfl⟩
  · exact List.forall_mem_nil _
  · rw [List.concat_eq_append] at hps hlast ⊢
    rw [FullBeforeLast, List.dropLast_concat] at hps
    exact List.forall_mem_append.mpr ⟨hps, List.forall_mem_singleton.mpr (hlast q (by simp))⟩

/-- Only the last pair that is read can be without values, and then no word follows it. -/
theorem Repeats.fullBeforeLast_pairs {pairs : List (String × List String)}
    (h : Repeats (readPair readToken) cs pairs rest) :
    FullBeforeLast pairs ∧ (EndsFull pairs ∨ Stops isWordStart rest) := by
  induction h with
  | stop _ => exact ⟨List.forall_mem_nil _, .inl fun p hp => by cases hp⟩
  | @step cs rest' rest p qs hp hlt hrest ih =>
    obtain ⟨hfull, hends⟩ := ih
    by_cases hhollow : p.2 = []
    · have hstops := stops_of_readPair hp hhollow
      cases hrest with
      | stop _ => exact ⟨List.forall_mem_nil _, .inr hstops⟩
      | step hq _ _ =>
        obtain ⟨f, hf⟩ := readPair_of_stops hstops
        rw [hf] at hq
        cases hq
    · refine ⟨fullBeforeLast_append (List.forall_mem_singleton.mpr hhollow) hfull, ?_⟩
      refine hends.imp_left fun hlast q hq => ?_
      cases qs with
      | nil =>
        cases hq
        exact hhollow
      | cons q' qs => exact hlast q (by rwa [List.getLast?_cons_cons] at hq)

theorem Repeats.fullBeforeLast {sections : List (WrittenSection String)}
    (h : Repeats (readSectionGaps readToken) cs sections rest) (hcs : Tight cs) :
    FullBeforeLast (allPairs sections) := by
  induction h with
  | stop _ => exact List.forall_mem_nil _
  | @step cs rest' rest s sections hs hlt hrest ih =>
    rw [readSectionGaps_eq hcs.start] at hs
    obtain ⟨body, -, -, hpairs⟩ := readSection_eq_ok_iff.mp hs
    obtain ⟨hfull, hends⟩ := hpairs.fullBeforeLast_pairs
    have htight := tight_of_readSection hs
    rcases hends with hlast | hstops
    · exact fullBeforeLast_append (forall_of_fullBeforeLast hfull hlast) (ih htight)
    · cases hrest with
      | stop _ => rwa [allPairs_cons, allPairs, List.flatMap_nil, List.append_nil]
      | step hs' _ _ =>
        obtain ⟨f, hf⟩ := readSectionGaps_of_stops htight hstops
        rw [hf] at hs'
        cases hs'

/-- **Whatever the text, only the last key that is read can be without values.** -/
theorem fullBeforeLast_of_readSections {text : List Char} {sections : List (WrittenSection String)}
    (h : readSections readToken (filterComments text) = .ok (sections, rest)) :
    FullBeforeLast (allPairs sections) := by
  have hne : filterComments text ≠ [] := by
    intro hnil
    rw [hnil] at h
    cases h
  exact ((many1_eq_ok_iff length_lt_of_readSectionGaps).mp h).2.fullBeforeLast
    (.of_solid (solid_filterComments hne))

end Reading

/-! ## Lines with a key alone -/

/-- The texts of a line without the blanks at its ends; nothing stands behind the colon of a key
without values. -/
inductive LineText : Item → List Char → Prop
  | full {i : Item} {cs : List Char} (h : ItemText i cs) : LineText i cs
  | hollow {key : String} {l : List Char} (hkey : isWord key = true)
      (hl : ∀ c ∈ l, isSpace c = true) : LineText (.pair key []) (key.toList ++ (l ++ [':']))

/-- The line of an item, with blanks around it. -/
def IsLine (i : Item) (line : List Char) : Prop :=
  ∃ l cs r, LineText i cs ∧ (∀ c ∈ l, isPadding c = true) ∧ (∀ c ∈ r, isPadding c = true) ∧
    line = l ++ (cs ++ r)

/-- The text has the title or the pair of the sections on each of its lines. -/
def IsRendering (sections : List (WrittenSection String)) (text : List Char) : Prop :=
  ∃ lines, List.Forall₂ IsLine (itemsOf sections) lines ∧ text = ['\n'].intercalate lines

namespace LineText

variable {i : Item} {cs : List Char}

theorem solid (h : LineText i cs) : IsSolid cs := by
  cases h with
  | full h => exact h.solid
  | @hollow key l hkey hl =>
    exact (solid_of_isWord hkey).append
      (.of_forall (List.cons_ne_nil _ _) (List.forall_mem_singleton.mpr (by decide))) l

theorem not_isBarred (h : LineText i cs) : ∀ c ∈ cs, isBarred c = false := by
  cases h with
  | full h => exact h.not_isBarred
  | hollow hkey hl =>
    exact not_isBarred_join (not_isBarred_of_word hkey) hl (by decide) (List.forall_mem_nil _)
      (List.forall_mem_nil _)

theorem uncut (h : LineText i cs) {rest : List Char} (hrest : Uncut rest)
    (hhead : rest.head? ≠ some '/') : Uncut (cs ++ rest) := by
  cases h with
  | full h => exact h.uncut hrest hhead
  | @hollow key l hkey hl =>
    have huncut : Uncut (key.toList ++ (l ++ ':' :: rest)) :=
      ((hrest.cons (by decide)).append fun c hc => ne_slash_of_isSpace (hl c hc)).append
        fun c hc => ne_of_mem_word hkey hc (by decide)
    simpa only [List.append_assoc, List.cons_append, List.nil_append] using huncut

theorem not_isDropped (h : LineText i cs) : isDropped cs = false := by
  cases h with
  | full h => exact h.not_isDropped
  | hollow hkey hl =>
    obtain ⟨c, ds, heq, hstart, -⟩ := isWord_cases hkey
    exact not_isDropped_of_start (by rw [heq]; rfl) hstart

end LineText

theorem feed_not_mem_of_isLine {i : Item} {line : List Char} (h : IsLine i line) : '\n' ∉ line := by
  obtain ⟨l, cs, r, hcs, hl, hr, rfl⟩ := h
  simp only [List.mem_append, not_or]
  refine ⟨fun h => (isPadding_iff.mp (hl _ h)).2 rfl, fun h => ?_,
    fun h => (isPadding_iff.mp (hr _ h)).2 rfl⟩
  exact absurd (hcs.not_isBarred _ h) (by decide)

/-- Removing comments leaves the bare lines. -/
theorem filterComments_of_rendering {sections : List (WrittenSection String)} {text : List Char}
    (h : IsRendering sections text) :
    ∃ bare, List.Forall₂ LineText (itemsOf sections) bare ∧
      filterComments text = ['\n'].intercalate bare := by
  obtain ⟨lines, hlines, rfl⟩ := h
  generalize itemsOf sections = items at hlines ⊢
  have hfeed : ∀ line ∈ lines, '\n' ∉ line := by
    induction hlines with
    | nil => exact List.forall_mem_nil _
    | cons hline _ ih => exact List.forall_mem_cons.mpr ⟨feed_not_mem_of_isLine hline, ih⟩
  unfold filterComments
  rw [keptLines_intercalate hfeed]
  refine ⟨_, ?_, rfl⟩
  clear hfeed
  induction hlines with
  | nil => exact .nil
  | cons hline _ ih =>
    obtain ⟨l, cs, r, hcs, hl, hr, rfl⟩ := hline
    rw [List.map_cons, trim_cutComment_padded hl hr hcs.solid hcs.not_isBarred
      (hcs.uncut (uncut_padding hr) (head?_padding hr)), List.filter_cons, hcs.not_isDropped]
    exact .cons hcs ih

/-! ## Reading the lines -/

theorem extendLast_concat (ps : List (String × List V)) (init : List (WrittenSection V))
    (s : WrittenSection V) :
    extendLast ps (init ++ [s]) = init ++ [⟨s.title, s.pairs ++ ps⟩] := by
  induction init with
  | nil => rfl
  | cons s' init ih =>
    rw [List.cons_append, extendLast_cons ps s' (by simp), ih, List.cons_append]

section Lines

variable {key title : String} {b : List Char}

/-- Nothing can be read of nothing. -/
theorem repeats_pairs_nil : Repeats (readPair readToken) [] [] [] := .stop (f := ⟨[], .mark⟩) rfl

theorem repeats_sections_nil : Repeats (readSectionGaps readToken) [] [] [] :=
  .stop (f := ⟨[], .mark⟩) rfl

theorem repeats_hollow (hb : LineText (.pair key []) b) :
    Repeats (readPair readToken) b [(key, [])] [] := by
  cases hb with
  | full h =>
    cases h with
    | pair _ _ _ hvalues => cases hvalues
  | @hollow _ l hkey hl =>
    have hword : Stops isWordChar (l ++ [':']) :=
      stops_mark hl (fun c hc => not_isWordChar_of_isSpace hc) (by decide) _
    have hcolon : readMark ':' (l ++ [':']) = .ok ((), []) :=
      readMark_append (r := []) hl (by decide) (List.forall_mem_nil _) (stops_nil _)
    have hread : readPair readToken (key.toList ++ (l ++ [':'])) = .ok ((key, []), []) := by
      unfold readPair
      rw [readWord_append hkey hword]
      simp only [hcolon]
      rfl
    exact .step hread (length_lt_of_readPair hread) repeats_pairs_nil

/-- A section with one key, which has no values. -/
theorem readSections_hollow (htitle : isWord title = true) (hb : LineText (.pair key []) b) :
    readSections readToken (title.toList ++ '\n' :: b) = .ok ([⟨title, [(key, [])]⟩], []) := by
  have hsolid : IsSolid (title.toList ++ '\n' :: b) :=
    (solid_of_isWord htitle).append hb.solid ['\n']
  have hbody : readTitle (title.toList ++ '\n' :: b) = .ok (title, b) := by
    have htrim : trim (['\n'] ++ b) = b := by
      rw [trim_blank_append (List.all_eq_true.mp rfl), trim_eq_self hb.solid]
    unfold readTitle
    rw [readWord_append htitle (stops_cons (by decide) b)]
    exact congrArg (fun cs => Except.ok (title, cs)) htrim
  have hread : readSectionGaps readToken (title.toList ++ '\n' :: b) =
      .ok (⟨title, [(key, [])]⟩, []) := by
    rw [readSectionGaps_eq hsolid.start]
    refine readSection_eq_ok_iff.mpr ⟨b, ?_, List.cons_ne_nil _ _, repeats_hollow hb⟩
    rw [skipSpaces_of_stops hsolid.start, hbody]
  exact (many1_eq_ok_iff length_lt_of_readSectionGaps).mpr ⟨List.cons_ne_nil _ _,
    .step hread (length_lt_of_readSectionGaps hread) repeats_sections_nil⟩

theorem solid_of_lines {items : List Item} {bare : List (List Char)}
    (h : List.Forall₂ LineText items bare) : ∀ c ∈ bare, IsSolid c := by
  induction h with
  | nil => exact List.forall_mem_nil _
  | cons hline _ ih => exact List.forall_mem_cons.mpr ⟨hline.solid, ih⟩

theorem solid_intercalate_lines {items : List Item} {bare : List (List Char)}
    (h : List.Forall₂ LineText items bare) (hne : bare ≠ []) :
    IsSolid (['\n'].intercalate bare) := by
  obtain ⟨b, bare, rfl⟩ := List.exists_cons_of_ne_nil hne
  obtain ⟨hb, hbare⟩ := List.forall_mem_cons.mp (solid_of_lines h)
  exact solid_intercalate hb hbare

theorem itemText_of_full {items : List Item} {bare : List (List Char)}
    (h : List.Forall₂ LineText items bare) (hfull : ∀ key ts, Item.pair key ts ∈ items → ts ≠ []) :
    List.Forall₂ ItemText items bare := by
  induction h with
  | nil => exact .nil
  | cons hline _ ih =>
    have hrest := ih fun key ts hmem => hfull key ts (List.mem_cons_of_mem _ hmem)
    cases hline with
    | full hitem => exact .cons hitem hrest
    | hollow _ _ => exact absurd rfl (hfull _ _ List.mem_cons_self)

theorem mem_allPairs_of_mem_itemsOf {sections : List (WrittenSection String)} {ts : List String}
    (h : Item.pair key ts ∈ itemsOf sections) : (key, ts) ∈ allPairs sections := by
  obtain ⟨s, hs, hmem⟩ := List.mem_flatMap.mp h
  rcases List.mem_cons.mp hmem with heq | hmem
  · cases heq
  · obtain ⟨p, hp, heq⟩ := List.mem_map.mp hmem
    cases heq
    exact List.mem_flatMap.mpr ⟨s, hs, hp⟩

/-- The lines of sections that each have keys, all of them with values. -/
structure FullLines (sections : List (WrittenSection String)) (bare : List (List Char)) : Prop where
  pairs : ∀ s ∈ sections, s.pairs ≠ []
  full : ∀ p ∈ allPairs sections, p.2 ≠ []
  lines : List.Forall₂ LineText (itemsOf sections) bare

namespace FullLines

variable {sections : List (WrittenSection String)} {bare : List (List Char)}

theorem readSections (h : FullLines sections bare) (hne : sections ≠ []) :
    readSections readToken (['\n'].intercalate bare) = .ok (sections, []) := by
  have hitems := itemText_of_full h.lines fun key ts hmem =>
    h.full (key, ts) (mem_allPairs_of_mem_itemsOf hmem)
  rw [readSections_bare readsTokens_readToken hne h.pairs hitems, map_id_sections]

theorem endsFull (h : FullLines sections bare) : EndsFull (allPairs sections) :=
  fun p hp => h.full p (List.mem_of_getLast? hp)

theorem ne_nil (h : FullLines sections bare) (hne : sections ≠ []) : bare ≠ [] := by
  rintro rfl
  obtain ⟨s, sections, rfl⟩ := List.exists_cons_of_ne_nil hne
  cases h.lines

/-- A last key without values, behind other keys of its section. -/
theorem hollow_pair {init : List (WrittenSection String)} {s : WrittenSection String}
    (h : FullLines (init ++ [s]) bare) (hb : LineText (.pair key []) b) :
    Task.readSections readToken (['\n'].intercalate (bare ++ [b])) =
      .ok (init ++ [⟨s.title, s.pairs ++ [(key, [])]⟩], []) := by
  have hne : init ++ [s] ≠ [] := by simp
  have hlines := h.ne_nil hne
  have hsolid := solid_intercalate_lines h.lines hlines
  obtain ⟨-, hsections⟩ :=
    (many1_eq_ok_iff length_lt_of_readSectionGaps).mp (h.readSections hne)
  have hnext := hsections.sections_next rfl hsolid.ne_nil (.of_solid hsolid) hb.solid h.endsFull
    (repeats_hollow hb) repeats_sections_nil
  rw [List.append_nil, extendLast_concat] at hnext
  rw [intercalate_append hlines (List.cons_ne_nil b []), List.intercalate_singleton]
  exact (many1_eq_ok_iff length_lt_of_readSectionGaps).mpr ⟨by simp, hnext⟩

/-- A last key without values, alone in its section. -/
theorem hollow_section (h : FullLines sections bare) (htitle : isWord title = true)
    (hb : LineText (.pair key []) b) :
    Task.readSections readToken (['\n'].intercalate (bare ++ [title.toList, b])) =
      .ok (sections ++ [⟨title, [(key, [])]⟩], []) := by
  have hsolid : IsSolid (title.toList ++ '\n' :: b) :=
    (solid_of_isWord htitle).append hb.solid ['\n']
  have htext : ['\n'].intercalate [title.toList, b] = title.toList ++ '\n' :: b := by
    rw [intercalate_cons_eq, furtherLines_cons]
    simp [furtherLines]
  have hlast := readSections_hollow htitle hb
  by_cases hne : sections = []
  · have hnil : bare = [] := by
      have hlines := h.lines
      rw [hne] at hlines
      cases hlines
      rfl
    rw [hne, hnil, List.nil_append, List.nil_append, htext, hlast]
  · have hlines := h.ne_nil hne
    rw [intercalate_append hlines (List.cons_ne_nil _ _), htext]
    exact readSections_concat (solid_intercalate_lines h.lines hlines) hsolid
      (h.readSections hne) h.endsFull hlast

end FullLines

end Lines

theorem exists_append_of_forall₂ {α β : Type} {R : α → β → Prop} {as bs : List α} {cs : List β}
    (h : List.Forall₂ R (as ++ bs) cs) :
    ∃ xs ys, cs = xs ++ ys ∧ List.Forall₂ R as xs ∧ List.Forall₂ R bs ys :=
  ⟨cs.take as.length, cs.drop as.length, (List.take_append_drop _ _).symm,
    (List.forall₂_take_append _ _ _ h.flip).flip, (List.forall₂_drop_append _ _ _ h.flip).flip⟩

section LastKey

variable {init : List (WrittenSection String)} {title key : String} {bare : List (List Char)}

/-- The last key is the only one of its section, and has no values. -/
theorem readSections_lines_alone (hpairs : ∀ s ∈ init, s.pairs ≠ [])
    (hfull : ∀ p ∈ allPairs init, p.2 ≠ [])
    (h : List.Forall₂ LineText (itemsOf (init ++ [⟨title, [(key, [])]⟩])) bare) :
    readSections readToken (['\n'].intercalate bare) = .ok (init ++ [⟨title, [(key, [])]⟩], []) := by
  have hitems : itemsOf (init ++ [⟨title, [(key, [])]⟩]) =
      itemsOf init ++ [.title title, .pair key []] := by
    simp [itemsOf]
  rw [hitems] at h
  obtain ⟨front, back, rfl, hfront, hback⟩ := exists_append_of_forall₂ h
  cases hback with
  | cons htitle hback =>
    cases hback with
    | cons hkey hback =>
      cases hback
      cases htitle with
      | full htitle =>
        cases htitle with
        | title hword =>
          have hlines : FullLines init front := ⟨hpairs, hfull, hfront⟩
          exact hlines.hollow_section hword hkey

/-- The last key has no values, and other keys of its section come before it. -/
theorem readSections_lines_behind {pairs : List (String × List String)}
    (hpairs : ∀ s ∈ init ++ [⟨title, pairs⟩], s.pairs ≠ [])
    (hfull : ∀ p ∈ allPairs (init ++ [⟨title, pairs⟩]), p.2 ≠ [])
    (h : List.Forall₂ LineText (itemsOf (init ++ [⟨title, pairs ++ [(key, [])]⟩])) bare) :
    readSections readToken (['\n'].intercalate bare) =
      .ok (init ++ [⟨title, pairs ++ [(key, [])]⟩], []) := by
  have hitems : itemsOf (init ++ [⟨title, pairs ++ [(key, [])]⟩]) =
      itemsOf (init ++ [⟨title, pairs⟩]) ++ [.pair key []] := by
    simp [itemsOf]
  rw [hitems] at h
  obtain ⟨front, back, rfl, hfront, hback⟩ := exists_append_of_forall₂ h
  cases hback with
  | cons hkey hback =>
    cases hback
    have hlines : FullLines (init ++ [⟨title, pairs⟩]) front := ⟨hpairs, hfull, hfront⟩
    exact hlines.hollow_pair hkey

end LastKey

/-- The last pair of sections that each have one. -/
theorem exists_last_pair {sections : List (WrittenSection V)} (hne : sections ≠ [])
    (hpairs : ∀ s ∈ sections, s.pairs ≠ []) :
    ∃ init title ps p, sections = init ++ [⟨title, ps ++ [p]⟩] := by
  rcases List.eq_nil_or_concat sections with hnil | ⟨init, ⟨title, pairs⟩, rfl⟩
  · exact absurd hnil hne
  · rw [List.concat_eq_append] at hpairs ⊢
    rcases List.eq_nil_or_concat pairs with rfl | ⟨ps, p, rfl⟩
    · exact absurd rfl (hpairs ⟨title, []⟩ (by simp))
    · exact ⟨init, title, ps, p, by rw [List.concat_eq_append]⟩

/-- Lines are read as they are written if every key but the last one has values. -/
theorem readSections_lines {sections : List (WrittenSection String)} {bare : List (List Char)}
    (hne : sections ≠ []) (hpairs : ∀ s ∈ sections, s.pairs ≠ [])
    (h : List.Forall₂ LineText (itemsOf sections) bare)
    (hfull : FullBeforeLast (allPairs sections)) :
    readSections readToken (['\n'].intercalate bare) = .ok (sections, []) := by
  by_cases hends : EndsFull (allPairs sections)
  · exact FullLines.readSections ⟨hpairs, forall_of_fullBeforeLast hfull hends, h⟩ hne
  · obtain ⟨init, title, ps, ⟨key, ts⟩, rfl⟩ := exists_last_pair hne hpairs
    have hall : allPairs (init ++ [⟨title, ps ++ [(key, ts)]⟩]) =
        (allPairs init ++ ps) ++ [(key, ts)] := by
      simp [allPairs]
    rw [hall, FullBeforeLast, List.dropLast_concat] at hfull
    obtain rfl : ts = [] := by
      by_contra hts
      refine hends fun p hp => ?_
      rw [hall, List.getLast?_concat] at hp
      cases hp
      exact hts
    have hinit : ∀ s ∈ init, s.pairs ≠ [] := fun s hs => hpairs s (List.mem_append_left _ hs)
    cases ps with
    | nil => exact readSections_lines_alone hinit (by simpa using hfull) h
    | cons p ps =>
      refine readSections_lines_behind (List.forall_mem_append.mpr ⟨hinit, ?_⟩ ) ?_ h
      · exact List.forall_mem_singleton.mpr (List.cons_ne_nil p ps)
      · simpa [allPairs] using hfull

/-- **A key without values is read as such exactly if it is the last one.**  Whatever the text, every
key that is read has values, but for the last.  So a text with a title or a pair on each line is read
as it is written if and only if no key but the last one is without values, and its document is then
that of its sections. -/
theorem empty_key_last (text : String) :
    (∀ sections rest, readSections readToken (filterComments text.toList) = .ok (sections, rest) →
      FullBeforeLast (allPairs sections)) ∧
    ∀ sections, sections ≠ [] → (∀ s ∈ sections, s.pairs ≠ []) →
      IsRendering sections text.toList →
        (FullBeforeLast (allPairs sections) ↔
          readSections readToken (filterComments text.toList) = .ok (sections, [])) ∧
        (FullBeforeLast (allPairs sections) →
          ∃ d, Document.parseTokens text = .ok d ∧ IsDocumentOf sections d) := by
  refine ⟨fun sections rest h => fullBeforeLast_of_readSections h, fun sections hne hpairs h => ?_⟩
  obtain ⟨bare, hbare, htext⟩ := filterComments_of_rendering h
  have hread : FullBeforeLast (allPairs sections) →
      readSections readToken (filterComments text.toList) = .ok (sections, []) := by
    intro hfull
    rw [htext]
    exact readSections_lines hne hpairs hbare hfull
  refine ⟨⟨hread, fullBeforeLast_of_readSections⟩, fun hfull => ?_⟩
  have hparse := parse_of_sections (f := id) (hread hfull)
  rw [map_id_readToken, map_id_sections] at hparse
  exact ⟨_, hparse, isDocumentOf_ofSections sections⟩

/-- A last key without values, with blanks around it. -/
theorem empty_key_last_padded : FullBeforeLast [("m", ["1"]), ("k", [])] ∧
    ∃ d, Document.parseTokens "t\nm: 1\n k :\t" = .ok d ∧
      IsDocumentOf [⟨"t", [("m", ["1"]), ("k", [])]⟩] d := by
  have all : ∀ {p : Char → Bool} {l : List Char}, l.all p = true → ∀ c ∈ l, p c = true :=
    fun h => List.all_eq_true.mp h
  have htitle : IsLine (.title "t") "t".toList :=
    ⟨[], _, [], .full (.title (by decide)), all rfl, all rfl, rfl⟩
  have hfull : IsLine (.pair "m" ["1"]) "m: 1".toList :=
    ⟨[], _, [], .full (.pair (l := []) (r := [' ']) (by decide) (all rfl) (all rfl)
      (.last (by decide))), all rfl, all rfl, rfl⟩
  have hhollow : IsLine (.pair "k" []) " k :\t".toList :=
    ⟨[' '], _, ['\t'], .hollow (l := [' ']) (by decide) (all rfl), all rfl, all rfl, rfl⟩
  have hbefore : FullBeforeLast [("m", ["1"]), ("k", [])] :=
    List.forall_mem_singleton.mpr (List.cons_ne_nil _ _)
  refine ⟨hbefore, ((empty_key_last _).2 [⟨"t", [("m", ["1"]), ("k", [])]⟩] (List.cons_ne_nil _ _)
    (List.forall_mem_singleton.mpr (List.cons_ne_nil _ _)) ?_).2 hbefore⟩
  exact ⟨_, .cons htitle (.cons hfull (.cons hhollow .nil)), by decide⟩

/-- What a key without values finds on the next line becomes its value. -/
theorem next_line_swallowed :
    IsRendering [⟨"t", [("k", []), ("m", ["1"])]⟩] "t\nk:\nm:1".toList ∧
    Document.parseTokens "t\nk:\nm:1" = .ok (.mk [("t", .mk [("k", some ["m:1"])])]) := by
  have all : ∀ {p : Char → Bool} {l : List Char}, l.all p = true → ∀ c ∈ l, p c = true :=
    fun h => List.all_eq_true.mp h
  have htitle : IsLine (.title "t") "t".toList :=
    ⟨[], _, [], .full (.title (by decide)), all rfl, all rfl, rfl⟩
  have hhollow : IsLine (.pair "k" []) "k:".toList :=
    ⟨[], _, [], .hollow (l := []) (by decide) (all rfl), all rfl, all rfl, rfl⟩
  have hfull : IsLine (.pair "m" ["1"]) "m:1".toList :=
    ⟨[], _, [], .full (.pair (l := []) (r := []) (by decide) (all rfl) (all rfl)
      (.last (by decide))), all rfl, all rfl, rfl⟩
  exact ⟨⟨_, .cons htitle (.cons hhollow (.cons hfull .nil)), by decide⟩, by decide +kernel⟩

end Pivotal.Task
