import Pivotal.Proofs.Task.Classifying
import Pivotal.Proofs.Task.OneLine
import Pivotal.Proofs.Task.Pieces

/-!
# What is read before another line

Pairs and titles drop the blanks behind them, the end of their line among them: with another line
behind the text they leave the old rest with that line behind it, or that line alone (`withNext`).

Only a list of values looks past its line, when there is nothing on it; a pair that has values, or
that leaves some text, is read again (`readPair_next`).  So the sections of a text whose last key has
values are read again with more text behind it, and what is read of that text comes after them: pairs
go on with the last section, sections follow it (`Repeats.sections_next`).
-/

namespace Pivotal.Task

open Text

/-! ## Ends of texts -/

/-- The text does not end with a blank. -/
def EndsSolid (cs : List Char) : Prop := Stops isBlank cs.reverse

/-- Neither end of the text is blank; it may be empty. -/
structure Tight (cs : List Char) : Prop where
  start : Stops isBlank cs
  finish : EndsSolid cs

theorem Tight.of_solid {cs : List Char} (h : IsSolid cs) : Tight cs :=
  ⟨h.start, h.finish⟩

/-- Another text on the next line; an empty text has no line. -/
def withNext (cs more : List Char) : List Char := if cs = [] then more else cs ++ '\n' :: more

section Ends

variable {cs rest more : List Char}

theorem EndsSolid.of_append {front : List Char} (h : EndsSolid (front ++ rest)) :
    EndsSolid rest := by
  intro c hc
  refine h c ?_
  rw [List.reverse_append, List.head?_append, Option.mem_def.mp hc]
  rfl

theorem EndsSolid.eq_nil (h : EndsSolid cs) (hcs : ∀ c ∈ cs, isBlank c = true) : cs = [] := by
  rcases List.eq_nil_or_concat cs with hnil | ⟨init, c, rfl⟩
  · exact hnil
  · have hsolid : isBlank c = false := h c (by simp)
    rw [hcs c (by simp)] at hsolid
    cases hsolid

theorem Leaves.endsSolid {ps : List (List Char)} (h : Leaves ps cs rest) (hcs : EndsSolid cs) :
    EndsSolid rest := by
  obtain ⟨front, behind, rfl, -, hbehind⟩ := h
  have hrest := hcs.of_append
  rw [hrest.of_append.eq_nil hbehind, List.append_nil] at hrest
  exact hrest

theorem Leaves.length_lt {p : List Char} {ps : List (List Char)} (h : Leaves (p :: ps) cs rest)
    (hp : p ≠ []) : rest.length < cs.length := by
  obtain ⟨front, behind, rfl, hfront, -⟩ := h
  have hpos : 0 < p.length := List.length_pos_iff.mpr hp
  cases hfront with
  | piece _ _ =>
    simp only [List.length_append]
    omega

theorem tight_trim (cs : List Char) : Tight (trim cs) := by
  by_cases hne : trim cs = []
  · rw [hne]
    exact ⟨stops_nil _, stops_nil _⟩
  · exact .of_solid (isSolid_trim hne)

theorem skipSpaces_of_stops (h : Stops isBlank cs) : skipSpaces cs = cs :=
  dropWhile_eq_self (h.mono fun _ hc => isBlank_of_isGap (by simp [isGap, hc]))

theorem skipGaps_of_stops (h : Stops isBlank cs) : skipGaps cs = cs :=
  dropWhile_eq_self (h.mono fun _ hc => isBlank_of_isGap hc)

theorem withNext_nil (more : List Char) : withNext [] more = more := rfl

theorem withNext_of_ne (h : cs ≠ []) : withNext cs more = cs ++ '\n' :: more := if_neg h

theorem length_withNext_le (cs more : List Char) :
    (withNext cs more).length ≤ (cs ++ '\n' :: more).length := by
  unfold withNext
  split
  · simp
    omega
  · exact Nat.le_refl _

/-- Trimming what is left does not see that another line follows. -/
theorem trim_next (hrest : EndsSolid rest) (hmore : IsSolid more) :
    trim (rest ++ '\n' :: more) = withNext (trim rest) more := by
  by_cases hne : trim rest = []
  · have hblank : ∀ c ∈ rest ++ ['\n'], isBlank c = true :=
      List.forall_mem_append.mpr ⟨blank_of_trim hne, List.all_eq_true.mp rfl⟩
    rw [hne, withNext_nil, ← List.singleton_append, ← List.append_assoc, trim_blank_append hblank,
      trim_eq_self hmore]
  · obtain ⟨l, r, hl, hr, heq⟩ := exists_trim rest
    have hnil : r = [] := (heq ▸ hrest : EndsSolid _).of_append.of_append.eq_nil hr
    have hsolid := (isSolid_trim hne).append hmore ['\n']
    calc trim (rest ++ '\n' :: more) = trim (l ++ (trim rest ++ (['\n'] ++ more))) := by
          conv_lhs => rw [heq, hnil]
          simp
      _ = trim rest ++ (['\n'] ++ more) := by rw [trim_blank_append hl, trim_eq_self hsolid]
      _ = withNext (trim rest) more := (withNext_of_ne hne).symm

end Ends

/-! ## Values and pairs -/

section Pairs

variable {cs rest more : List Char}

theorem skipGaps_next (h : skipGaps cs ≠ []) (more : List Char) :
    skipGaps (cs ++ '\n' :: more) = skipGaps cs ++ '\n' :: more := by
  unfold skipGaps at h ⊢
  rw [List.dropWhile_append, if_neg (by simpa using h)]

theorem lineLocal_values : LineLocal (separated (readMark ',') readToken) :=
  (lineLocal_readMark (by decide)).separated lineLocal_readToken

/-- Values on their line are read again, and so is an empty list before something else. -/
theorem readValues_next {ts : List String} (h : readValues readToken cs = .ok (ts, rest))
    (hne : ts ≠ [] ∨ rest ≠ []) (more : List Char) :
    readValues readToken (cs ++ '\n' :: more) = .ok (ts, rest ++ '\n' :: more) := by
  unfold readValues at h ⊢
  have hgaps : skipGaps cs ≠ [] := by
    intro hnil
    rw [hnil] at h
    cases h
    rcases hne with hne | hne
    · exact hne rfl
    · exact hne rfl
  rw [skipGaps_next hgaps]
  exact lineLocal_values.ok h more

theorem readValues_next_error {f : Failure} (h : readValues readToken cs = .error f)
    (more : List Char) : ∃ g, readValues readToken (cs ++ '\n' :: more) = .error g := by
  unfold readValues at h ⊢
  have hgaps : skipGaps cs ≠ [] := by
    intro hnil
    rw [hnil] at h
    cases h
  rw [skipGaps_next hgaps]
  exact lineLocal_values.error h more

/-- The parts of a pair. -/
theorem readPair_eq_ok {V : Type} {value : Reader V} {p : String × List V}
    (h : readPair value cs = .ok (p, rest)) : ∃ rest₁ rest₂ rest₃,
      readWord cs = .ok (p.1, rest₁) ∧ readMark ':' rest₁ = .ok ((), rest₂) ∧
      readValues value rest₂ = .ok (p.2, rest₃) ∧ rest = trim rest₃ := by
  unfold readPair at h
  split at h
  · cases h
  · next key rest₁ hkey =>
    split at h
    · cases h
    · next rest₂ hcolon =>
      split at h
      · cases h
      · next ts rest₃ hvalues =>
        cases h
        exact ⟨rest₁, rest₂, rest₃, hkey, hcolon, hvalues, rfl⟩

theorem tight_of_readPair {V : Type} {value : Reader V} {p : String × List V}
    (h : readPair value cs = .ok (p, rest)) : Tight rest := by
  obtain ⟨_, _, rest₃, -, -, -, rfl⟩ := readPair_eq_ok h
  exact tight_trim rest₃

/-- There are no spaces left to skip behind a pair. -/
theorem readPairSpaces_eq {V : Type} (value : Reader V) : readPairSpaces value = readPair value := by
  funext cs
  unfold readPairSpaces
  cases h : readPair value cs with
  | error f => rfl
  | ok r =>
    obtain ⟨p, rest⟩ := r
    exact congrArg (fun cs => Except.ok (p, cs)) (skipSpaces_of_stops (tight_of_readPair h).start)

theorem readPair_next {p : String × List String} (hcs : EndsSolid cs) (hmore : IsSolid more)
    (h : readPair readToken cs = .ok (p, rest)) (hne : p.2 ≠ [] ∨ rest ≠ []) :
    readPair readToken (cs ++ '\n' :: more) = .ok (p, withNext rest more) := by
  obtain ⟨rest₁, rest₂, rest₃, hkey, hcolon, hvalues, rfl⟩ := readPair_eq_ok h
  have hends : EndsSolid rest₃ := ((takes_readWord hkey).2.trans
    ((takes_readMark ':' hcolon).2.trans (takes_readValues hvalues).2)).endsSolid hcs
  have hne₃ : p.2 ≠ [] ∨ rest₃ ≠ [] := hne.imp_right fun htrim hnil => htrim (by rw [hnil]; rfl)
  unfold readPair
  rw [lineLocal_readWord.ok hkey more]
  simp only [(lineLocal_readMark (by decide)).ok hcolon more, readValues_next hvalues hne₃ more,
    trim_next hends hmore]

theorem readPair_next_error {f : Failure} (h : readPair readToken cs = .error f)
    (more : List Char) : ∃ g, readPair readToken (cs ++ '\n' :: more) = .error g := by
  unfold readPair at h ⊢
  cases hkey : readWord cs with
  | error f =>
    obtain ⟨g, hg⟩ := lineLocal_readWord.error hkey more
    exact ⟨g, by rw [hg]⟩
  | ok r =>
    obtain ⟨key, rest₁⟩ := r
    rw [hkey] at h
    rw [lineLocal_readWord.ok hkey more]
    dsimp only at h ⊢
    cases hcolon : readMark ':' rest₁ with
    | error f =>
      obtain ⟨g, hg⟩ := (lineLocal_readMark (by decide)).error hcolon more
      exact ⟨g, by rw [hg]⟩
    | ok r =>
      obtain ⟨u, rest₂⟩ := r
      rw [hcolon] at h
      rw [(lineLocal_readMark (by decide)).ok hcolon more]
      dsimp only at h ⊢
      cases hvalues : readValues readToken rest₂ with
      | error f =>
        obtain ⟨g, hg⟩ := readValues_next_error hvalues more
        exact ⟨g, by rw [hg]⟩
      | ok r => rw [hvalues] at h; cases h

/-- A pair has a key, so reading one makes progress. -/
theorem length_lt_of_readPair {p : String × List String}
    (h : readPair readToken cs = .ok (p, rest)) : rest.length < cs.length := by
  obtain ⟨⟨hkey, -⟩, hleaves⟩ := takes_readPair h
  exact hleaves.length_lt (solid_of_isWord hkey).ne_nil

/-- The last pair has values. -/
def EndsFull {V : Type} (pairs : List (String × List V)) : Prop := ∀ p ∈ pairs.getLast?, p.2 ≠ []

/-- Pairs that are read are read again, and the reading goes on with what follows them. -/
theorem Repeats.pairs_next {pairs ps : List (String × List String)} {r : List Char}
    (h : Repeats (readPair readToken) cs pairs rest) (hcs : EndsSolid cs) (hmore : IsSolid more)
    (hfull : rest = [] → EndsFull pairs)
    (hnext : Repeats (readPair readToken) (withNext rest more) ps r) :
    Repeats (readPair readToken) (withNext cs more) (pairs ++ ps) r := by
  induction h with
  | stop _ => exact hnext
  | @step cs rest' rest p qs hp hlt hrest ih =>
    have hne : cs ≠ [] := by
      rintro rfl
      cases hp
    -- a pair that leaves nothing is the last one
    have hlast : p.2 ≠ [] ∨ rest' ≠ [] := by
      by_cases hnil : rest' = []
      · subst hnil
        cases hrest with
        | stop _ => exact .inl (hfull rfl p rfl)
        | step hx _ _ => cases hx
      · exact .inr hnil
    have hafter := ih (tight_of_readPair hp).finish
      (fun hnil q hq => hfull hnil q (List.mem_getLast?_cons hq)) hnext
    rw [withNext_of_ne hne]
    refine .step (readPair_next hcs hmore hp hlast) ?_ hafter
    exact Nat.lt_of_le_of_lt (length_withNext_le rest' more) (length_next_iff.mpr hlt)

end Pairs

/-! ## Sections -/

section Sections

variable {cs rest more : List Char} {s : WrittenSection String}

theorem Repeats.tight {pairs : List (String × List String)}
    (h : Repeats (readPair readToken) cs pairs rest) (hcs : Tight cs) : Tight rest := by
  induction h with
  | stop _ => exact hcs
  | step hp _ _ ih => exact ih (tight_of_readPair hp)

theorem readTitle_eq_ok {title : String} {body : List Char} (h : readTitle cs = .ok (title, body)) :
    ∃ rest, readWord cs = .ok (title, rest) ∧ body = trim rest := by
  unfold readTitle at h
  cases hword : readWord cs with
  | error f => rw [hword] at h; cases h
  | ok r =>
    obtain ⟨w, rest⟩ := r
    rw [hword] at h
    cases h
    exact ⟨rest, rfl, rfl⟩

theorem readTitle_next {title : String} {body : List Char} (hcs : EndsSolid cs)
    (hmore : IsSolid more) (h : readTitle cs = .ok (title, body)) :
    readTitle (cs ++ '\n' :: more) = .ok (title, withNext body more) := by
  obtain ⟨rest, hword, rfl⟩ := readTitle_eq_ok h
  unfold readTitle
  rw [lineLocal_readWord.ok hword more, ← trim_next ((takes_readWord hword).2.endsSolid hcs) hmore]
  rfl

theorem tight_of_readTitle {title : String} {body : List Char}
    (h : readTitle cs = .ok (title, body)) : Tight body := by
  obtain ⟨rest, -, rfl⟩ := readTitle_eq_ok h
  exact tight_trim rest

/-- A section is a title and then pairs, one at least. -/
theorem readSection_eq_ok_iff : readSection readToken cs = .ok (s, rest) ↔
    ∃ body, readTitle (skipSpaces cs) = .ok (s.title, body) ∧ s.pairs ≠ [] ∧
      Repeats (readPair readToken) body s.pairs rest := by
  rw [readSection_eq, readPairSpaces_eq]
  cases htitle : readTitle (skipSpaces cs) with
  | error f =>
    constructor
    · intro h
      cases h
    · rintro ⟨body, hbody, -⟩
      cases hbody
  | ok r =>
    obtain ⟨title, body⟩ := r
    simp only [Except.bind, skipGaps_of_stops (tight_of_readTitle htitle).start]
    constructor
    · intro h
      cases hmany : many1 (readPair readToken) body with
      | error f => rw [hmany] at h; cases h
      | ok r =>
        obtain ⟨pairs, rest'⟩ := r
        rw [hmany] at h
        cases h
        exact ⟨body, rfl, (many1_eq_ok_iff length_lt_of_readPair).mp hmany⟩
    · rintro ⟨body', hsame, hpairs⟩
      cases hsame
      rw [(many1_eq_ok_iff length_lt_of_readPair).mpr hpairs]
      rfl

/-- A section that is read is read again, and goes on with the pairs that follow it. -/
theorem readSection_next {ps : List (String × List String)} {r : List Char} (hcs : EndsSolid cs)
    (hmore : IsSolid more) (h : readSection readToken cs = .ok (s, rest))
    (hfull : rest = [] → EndsFull s.pairs)
    (hnext : Repeats (readPair readToken) (withNext rest more) ps r) :
    readSection readToken (cs ++ '\n' :: more) = .ok (⟨s.title, s.pairs ++ ps⟩, r) := by
  obtain ⟨body, htitle, hne, hpairs⟩ := readSection_eq_ok_iff.mp h
  refine readSection_eq_ok_iff.mpr ⟨withNext body more, ?_, by simp [hne],
    hpairs.pairs_next (tight_of_readTitle htitle).finish hmore hfull hnext⟩
  rw [skipSpaces_next]
  exact readTitle_next ((Leaves.skipSpaces cs).endsSolid hcs) hmore htitle

theorem tight_of_readSection (h : readSection readToken cs = .ok (s, rest)) : Tight rest := by
  obtain ⟨body, htitle, -, hpairs⟩ := readSection_eq_ok_iff.mp h
  exact hpairs.tight (tight_of_readTitle htitle)

/-- No pair begins where a section has ended. -/
theorem readPair_of_readSection_rest (h : readSection readToken cs = .ok (s, rest)) :
    ∃ f, readPair readToken rest = .error f := by
  obtain ⟨body, -, -, hpairs⟩ := readSection_eq_ok_iff.mp h
  exact hpairs.error

theorem exists_start_of_readWord {w : String} (h : readWord cs = .ok (w, rest)) :
    ∃ c ds, cs = c :: ds ∧ isWordStart c = true := by
  cases cs with
  | nil => cases h
  | cons c ds =>
    rw [readWord] at h
    split at h
    · next hc => exact ⟨c, ds, rfl, hc⟩
    · cases h

/-- A mark comes first of what is left when blanks are dropped. -/
theorem exists_trim_of_readMark {m : Char} {u : Unit} (hm : isBlank m = false)
    (h : readMark m cs = .ok (u, rest)) : ∃ ds, trim cs = m :: ds := by
  unfold readMark at h
  split at h
  · cases h
  · next c ds heq =>
    split at h
    · next hc =>
      subst hc
      have hspaces : ∀ d ∈ cs.takeWhile isSpace, isBlank d = true := fun d hd =>
        isBlank_of_isGap (by simp [isGap, List.all_eq_true.mp List.all_takeWhile d hd])
      have hcs : cs.takeWhile isSpace ++ c :: ds = cs := by
        rw [← heq]
        exact List.takeWhile_append_dropWhile
      rw [← hcs, trim_blank_append hspaces, trim_cons hm]
      exact ⟨_, rfl⟩
    · cases h

/-- No pair begins where a section begins: what follows a title starts with a word, not with a
colon. -/
theorem readPair_of_readSection (hcs : Stops isBlank cs)
    (h : readSection readToken cs = .ok (s, rest)) : ∃ f, readPair readToken cs = .error f := by
  obtain ⟨body, htitle, hne, hpairs⟩ := readSection_eq_ok_iff.mp h
  rw [skipSpaces_of_stops hcs] at htitle
  obtain ⟨rest₁, hword, rfl⟩ := readTitle_eq_ok htitle
  have hstart : ∃ c ds, trim rest₁ = c :: ds ∧ isWordStart c = true := by
    generalize s.pairs = pairs at hne hpairs
    cases hpairs with
    | stop _ => exact absurd rfl hne
    | step hpair _ _ =>
      obtain ⟨_, _, _, hkey, -⟩ := readPair_eq_ok hpair
      exact exists_start_of_readWord hkey
  cases hcolon : readMark ':' rest₁ with
  | error f =>
    unfold readPair
    rw [hword]
    exact ⟨f, by simp only [hcolon]⟩
  | ok r =>
    obtain ⟨u, rest₂⟩ := r
    obtain ⟨ds, hds⟩ := exists_trim_of_readMark (by decide) hcolon
    obtain ⟨c, es, hes, hc⟩ := hstart
    rw [hds] at hes
    cases hes
    exact absurd hc (by decide)

/-- A section as a document reads it: gaps are skipped on both sides of it. -/
def readSectionGaps {V : Type} (value : Reader V) : Reader (WrittenSection V) := fun cs =>
  (readSection value (skipGaps cs)).map fun (s, rest) => (s, skipGaps rest)

/-- Where no blank stands there are no gaps. -/
theorem readSectionGaps_eq (hcs : Stops isBlank cs) :
    readSectionGaps readToken cs = readSection readToken cs := by
  unfold readSectionGaps
  rw [skipGaps_of_stops hcs]
  cases h : readSection readToken cs with
  | error f => rfl
  | ok r =>
    obtain ⟨s, rest⟩ := r
    exact congrArg (fun cs => Except.ok (s, cs)) (skipGaps_of_stops (tight_of_readSection h).start)

theorem length_lt_of_readSectionGaps (h : readSectionGaps readToken cs = .ok (s, rest)) :
    rest.length < cs.length := by
  obtain ⟨hsection, hleaves⟩ :=
    ((takes_readSection.after Leaves.skipGaps).dropping Leaves.skipGaps) h
  exact hleaves.length_lt (solid_of_isWord hsection.title).ne_nil

/-- The last section with more pairs. -/
def extendLast {V : Type} (ps : List (String × List V)) :
    List (WrittenSection V) → List (WrittenSection V)
  | [] => []
  | [s] => [⟨s.title, s.pairs ++ ps⟩]
  | s :: s' :: sections => s :: extendLast ps (s' :: sections)

theorem extendLast_cons {V : Type} (ps : List (String × List V)) (s : WrittenSection V)
    {sections : List (WrittenSection V)} (h : sections ≠ []) :
    extendLast ps (s :: sections) = s :: extendLast ps sections := by
  obtain ⟨s', sections, rfl⟩ := List.exists_cons_of_ne_nil h
  rfl

/-- The pairs of all sections. -/
def allPairs {V : Type} (sections : List (WrittenSection V)) : List (String × List V) :=
  sections.flatMap (·.pairs)

theorem allPairs_cons {V : Type} (s : WrittenSection V) (sections : List (WrittenSection V)) :
    allPairs (s :: sections) = s.pairs ++ allPairs sections := rfl

/-- **Sections whose last key has values are read again before another line.**  The pairs that come
first in the other text go on with the last section. -/
theorem Repeats.sections_next {sections others : List (WrittenSection String)}
    {ps : List (String × List String)} {r r' : List Char}
    (h : Repeats (readSectionGaps readToken) cs sections rest) (hrest : rest = []) (hne : cs ≠ [])
    (hcs : Tight cs) (hmore : IsSolid more) (hfull : EndsFull (allPairs sections))
    (hpairs : Repeats (readPair readToken) more ps r)
    (hnext : Repeats (readSectionGaps readToken) r others r') :
    Repeats (readSectionGaps readToken) (cs ++ '\n' :: more) (extendLast ps sections ++ others)
      r' := by
  induction h with
  | stop _ => exact absurd hrest hne
  | @step cs rest' rest s sections hs hlt hsections ih =>
    rw [readSectionGaps_eq hcs.start] at hs
    have hstart : Stops isBlank (cs ++ '\n' :: more) := hcs.start.append hne _
    by_cases hnil : rest' = []
    · -- the last section goes on with the pairs of the other text
      subst hnil
      cases hsections with
      | step hx _ _ => cases hx
      | stop _ =>
        have hlast : EndsFull s.pairs := fun p hp => hfull p (by simpa [allPairs] using hp)
        have hread := readSection_next hcs.finish hmore hs (fun _ => hlast) hpairs
        rw [← readSectionGaps_eq hstart] at hread
        refine .step hread ?_ hnext
        have hle := hpairs.length_le
        simp only [List.length_append, List.length_cons]
        omega
    · -- after any other section no pair begins, with or without the other text
      obtain ⟨f, hf⟩ := readPair_of_readSection_rest hs
      obtain ⟨g, hg⟩ := readPair_next_error hf more
      have hstop : Repeats (readPair readToken) (withNext rest' more) [] (rest' ++ '\n' :: more) := by
        rw [withNext_of_ne hnil]
        exact .stop hg
      have hread := readSection_next hcs.finish hmore hs (fun h => absurd h hnil) hstop
      rw [List.append_nil, ← readSectionGaps_eq hstart] at hread
      have hne' : sections ≠ [] := by
        rintro rfl
        cases hsections
        exact hnil hrest
      have hfull' : EndsFull (allPairs sections) := by
        intro p hp
        refine hfull p ?_
        rw [allPairs_cons, List.getLast?_append, Option.mem_def.mp hp]
        rfl
      rw [extendLast_cons ps s hne']
      exact .step hread (length_next_iff.mpr hlt)
        (ih hrest hnil (tight_of_readSection hs) hfull')

end Sections

end Pivotal.Task
