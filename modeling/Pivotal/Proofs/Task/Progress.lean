import Pivotal.Proofs.Task.NextLine

/-!
# Every reader makes progress

A repetition goes on as long as its item can be read, so it ends only if every item takes something
off the text.  `Progresses item` says that a reading that succeeds leaves a shorter part of the text,
and that one that fails does not fail for want of progress.  The ways to put readers together keep
this, and a repetition of such items ends on every text (`Progresses.ends`), so the guard in `many`
is never the one that stops it.

A word is itself read by a repetition, of runs of letters and digits and of underscores:
`readWord_eq_byPieces`.  The main statement, for all readers of a document and all their
repetitions, is `readers_make_progress`.
-/

namespace Pivotal.Task

open Text

variable {α β V : Type}

/-! ## Progress and repetition -/

/-- A reading that succeeds leaves a shorter part of the text; one that fails does not fail for want
of progress. -/
structure Progresses (item : Reader α) : Prop where
  isPart : ∀ {cs rest : List Char} {x : α}, item cs = .ok (x, rest) → rest <:+: cs
  shorter : ∀ {cs rest : List Char} {x : α}, item cs = .ok (x, rest) → rest.length < cs.length
  wanted : ∀ {cs : List Char} {f : Failure}, item cs = .error f → f.wanted ≠ .progress

/-- The repetition of the item ends on every text: after finitely many items, each taking something
off the text, there is none to read. -/
def Ends (item : Reader α) : Prop :=
  ∀ cs, ∃ xs rest, many item cs = .ok (xs, rest) ∧ Repeats item cs xs rest

section Repetition

variable {item : Reader α} {cs rest : List Char} {xs : List α}

theorem Progresses.ends (h : Progresses item) : Ends item := by
  intro cs
  induction hlen : cs.length using Nat.strongRecOn generalizing cs with
  | _ k ih =>
    cases hitem : item cs with
    | error f => exact ⟨[], cs, many_stop hitem, .stop hitem⟩
    | ok r =>
      obtain ⟨x, rest⟩ := r
      have hlt := h.shorter hitem
      obtain ⟨xs, rest', hmany, hrest⟩ := ih rest.length (hlen ▸ hlt) rest rfl
      exact ⟨x :: xs, rest', many_step hitem hlt hmany, .step hitem hlt hrest⟩

theorem Ends.many_ne_error (h : Ends item) {f : Failure} : many item cs ≠ .error f := by
  obtain ⟨xs, rest, hmany, -⟩ := h cs
  intro hf
  rw [hmany] at hf
  cases hf

theorem Repeats.isPart (hitem : Progresses item) (h : Repeats item cs xs rest) : rest <:+: cs := by
  induction h with
  | stop _ => exact List.infix_rfl
  | step hx _ _ ih => exact ih.trans (hitem.isPart hx)

theorem Repeats.length_lt (h : Repeats item cs xs rest) (hne : xs ≠ []) :
    rest.length < cs.length := by
  cases h with
  | stop _ => exact absurd rfl hne
  | step _ hlt hrest => exact Nat.lt_of_le_of_lt hrest.length_le hlt

end Repetition

/-! ## Putting readers together -/

theorem Leaves.isInfix {ps : List (List Char)} {cs rest : List Char} (h : Leaves ps cs rest) :
    rest <:+: cs := by
  obtain ⟨front, behind, rfl, -, -⟩ := h
  exact ⟨front, behind, by rw [List.append_assoc]⟩

namespace Progresses

variable {item : Reader α}

theorem many1 (h : Progresses item) : Progresses (many1 item) where
  isPart hok := ((many1_eq_ok_iff h.shorter).mp hok).2.isPart h
  shorter hok := by
    obtain ⟨hne, hrepeats⟩ := (many1_eq_ok_iff h.shorter).mp hok
    exact hrepeats.length_lt hne
  wanted {cs f} hf := by
    unfold Task.many1 at hf
    split at hf
    · next g hitem =>
      cases hf
      exact h.wanted hitem
    · next x rest hitem =>
      split at hf
      · next g hmany => exact absurd hmany h.ends.many_ne_error
      · cases hf

/-- One reader after the other. -/
theorem both {first : Reader β} (hfirst : Progresses first) (h : Progresses item) (g : β → α → V) :
    Progresses fun cs => (first cs).bind fun x => (item x.2).map fun y => (g x.1 y.1, y.2) := by
  have hcases : ∀ {cs rest : List Char} {z : V},
      ((first cs).bind fun x => (item x.2).map fun y => (g x.1 y.1, y.2)) = .ok (z, rest) →
      ∃ x rest' y, first cs = .ok (x, rest') ∧ item rest' = .ok (y, rest) := by
    intro cs rest z hok
    cases hx : first cs with
    | error f => rw [hx] at hok; cases hok
    | ok r =>
      rw [hx] at hok
      simp only [Except.bind] at hok
      cases hy : item r.2 with
      | error f => rw [hy] at hok; cases hok
      | ok r' =>
        rw [hy] at hok
        cases hok
        exact ⟨r.1, r.2, r'.1, rfl, hy⟩
  constructor
  · intro cs rest z hok
    obtain ⟨x, rest', y, hx, hy⟩ := hcases hok
    exact (h.isPart hy).trans (hfirst.isPart hx)
  · intro cs rest z hok
    obtain ⟨x, rest', y, hx, hy⟩ := hcases hok
    exact Nat.lt_trans (h.shorter hy) (hfirst.shorter hx)
  · intro cs f hf
    cases hx : first cs with
    | error f' => rw [hx] at hf; cases hf; exact hfirst.wanted hx
    | ok r =>
      rw [hx] at hf
      simp only [Except.bind] at hf
      cases hy : item r.2 with
      | error f' => rw [hy] at hf; cases hf; exact h.wanted hy
      | ok r' => rw [hy] at hf; cases hf

theorem andThen {first : Reader β} (hfirst : Progresses first) (h : Progresses item) :
    Progresses (andThen first item) := by
  have heq : Task.andThen first item = fun cs =>
      (first cs).bind fun x => (item x.2).map fun y => (y.1, y.2) := by
    funext cs
    unfold Task.andThen
    cases hx : first cs with
    | error f => rfl
    | ok r =>
      simp only [Except.bind]
      cases hy : item r.2 with
      | error f => rfl
      | ok r' => rfl
  rw [heq]
  exact hfirst.both h fun _ y => y

theorem map (g : α → β) (h : Progresses item) : Progresses (Reader.map g item) := by
  have hcases : ∀ cs, (∃ f, item cs = .error f ∧ Reader.map g item cs = .error f) ∨
      ∃ x rest, item cs = .ok (x, rest) ∧ Reader.map g item cs = .ok (g x, rest) := by
    intro cs
    cases hitem : item cs with
    | error f => exact .inl ⟨f, rfl, Reader.map_of_error g hitem⟩
    | ok r => exact .inr ⟨r.1, r.2, rfl, Reader.map_of_ok g hitem⟩
  constructor
  · intro cs rest y hok
    rcases hcases cs with ⟨f, -, hf⟩ | ⟨x, rest', hx, hmap⟩
    · rw [hf] at hok; cases hok
    · rw [hmap] at hok; cases hok; exact h.isPart hx
  · intro cs rest y hok
    rcases hcases cs with ⟨f, -, hf⟩ | ⟨x, rest', hx, hmap⟩
    · rw [hf] at hok; cases hok
    · rw [hmap] at hok; cases hok; exact h.shorter hx
  · intro cs f hf
    rcases hcases cs with ⟨f', hf', hmap⟩ | ⟨x, rest', -, hmap⟩
    · rw [hmap] at hf; cases hf; exact h.wanted hf'
    · rw [hmap] at hf; cases hf

variable {drop : List Char → List Char}

/-- Blanks that are dropped before the item. -/
theorem after (h : Progresses item) (hdrop : ∀ cs, Leaves [] cs (drop cs)) :
    Progresses fun cs => item (drop cs) where
  isPart {cs _ _} hok := (h.isPart hok).trans (hdrop cs).isInfix
  shorter {cs _ _} hok := Nat.lt_of_lt_of_le (h.shorter hok) (hdrop cs).isInfix.length_le
  wanted hf := h.wanted hf

/-- Blanks that are dropped of what the item leaves. -/
theorem dropping (h : Progresses item) (hdrop : ∀ cs, Leaves [] cs (drop cs)) :
    Progresses fun cs => (item cs).map fun (x, rest) => (x, drop rest) := by
  constructor
  · intro cs rest x hok
    cases hitem : item cs with
    | error f => rw [hitem] at hok; cases hok
    | ok r =>
      rw [hitem] at hok
      cases hok
      exact (hdrop r.2).isInfix.trans (h.isPart hitem)
  · intro cs rest x hok
    cases hitem : item cs with
    | error f => rw [hitem] at hok; cases hok
    | ok r =>
      rw [hitem] at hok
      cases hok
      exact Nat.lt_of_le_of_lt (hdrop r.2).isInfix.length_le (h.shorter hitem)
  · intro cs f hf
    cases hitem : item cs with
    | error f' => rw [hitem] at hf; cases hf; exact h.wanted hitem
    | ok r => rw [hitem] at hf; cases hf

/-- A reader that takes a piece that is not empty. -/
theorem of_takes {pieces : α → List (List Char)} {Good : α → Prop} (h : Takes item pieces Good)
    (hpieces : ∀ x, Good x → ∃ p ps, pieces x = p :: ps ∧ p ≠ [])
    (hwanted : ∀ {cs : List Char} {f : Failure}, item cs = .error f → f.wanted ≠ .progress) :
    Progresses item where
  isPart hok := (h hok).2.isInfix
  shorter {cs rest x} hok := by
    obtain ⟨hgood, hleaves⟩ := h hok
    obtain ⟨p, ps, heq, hp⟩ := hpieces x hgood
    rw [heq] at hleaves
    exact hleaves.length_lt hp
  wanted := hwanted

end Progresses

/-! ## Words, marks and tokens -/

theorem mark_ne_progress : Wanted.mark ≠ .progress := by decide

theorem value_ne_progress : Wanted.value ≠ .progress := by decide

theorem progresses_readWord : Progresses readWord := by
  refine .of_takes takes_readWord (fun w hw => ⟨_, _, rfl, (solid_of_isWord hw).ne_nil⟩) ?_
  intro cs f hf
  cases cs with
  | nil => cases hf; exact mark_ne_progress
  | cons c cs =>
    rw [readWord] at hf
    split at hf
    · cases hf
    · cases hf; exact mark_ne_progress

theorem progresses_readTitle : Progresses readTitle := progresses_readWord.dropping Leaves.trim

theorem progresses_readMark (m : Char) : Progresses (readMark m) := by
  refine .of_takes (takes_readMark m) (fun _ _ => ⟨_, _, rfl, List.cons_ne_nil m []⟩) ?_
  intro cs f hf
  unfold readMark at hf
  split at hf
  · cases hf; exact mark_ne_progress
  · split at hf
    · cases hf
    · cases hf; exact mark_ne_progress

theorem progresses_readToken : Progresses readToken := by
  refine .of_takes takes_readToken (fun t ht => ⟨_, _, rfl, ht.1⟩) ?_
  intro cs f hf
  unfold readToken at hf
  split at hf
  · cases hf; exact value_ne_progress
  · cases hf

theorem progresses_readValue : Progresses readValue := progresses_readToken.map tokenValue

/-! ## Words by pieces -/

/-- Reads a run of characters of the kind `p`, or an underscore. -/
def readPiece (p : Char → Bool) : Reader (List Char) := fun cs =>
  if cs.takeWhile p = [] then
    if cs.head? = some '_' then .ok (['_'], cs.tail) else .error ⟨cs, .mark⟩
  else .ok (cs.takeWhile p, cs.dropWhile p)

/-- Reads a word by its pieces: letters or an underscore first, and then as many pieces as there
are. -/
def readWordByPieces : Reader String := fun cs =>
  match readPiece Char.isAlpha cs with
  | .error f => .error f
  | .ok (start, rest) =>
    match many (readPiece Char.isAlphanum) rest with
    | .error f => .error f
    | .ok (pieces, rest) => .ok (String.ofList (start ++ pieces.flatten), rest)

theorem readPiece_eq_ok {p : Char → Bool} {cs piece rest : List Char}
    (h : readPiece p cs = .ok (piece, rest)) :
    cs = piece ++ rest ∧ piece ≠ [] ∧ ∀ c ∈ piece, p c = true ∨ c = '_' := by
  unfold readPiece at h
  split at h
  · split at h
    · next hhead =>
      cases h
      obtain ⟨ds, rfl⟩ := List.head?_eq_some_iff.mp hhead
      exact ⟨rfl, List.cons_ne_nil _ _, fun c hc => .inr (List.mem_singleton.mp hc)⟩
    · cases h
  · next hne =>
    cases h
    exact ⟨List.takeWhile_append_dropWhile.symm, hne,
      fun c hc => .inl (List.all_eq_true.mp List.all_takeWhile c hc)⟩

theorem progresses_readPiece (p : Char → Bool) : Progresses (readPiece p) where
  isPart hok := ⟨_, [], by rw [List.append_nil]; exact (readPiece_eq_ok hok).1.symm⟩
  shorter hok := by
    obtain ⟨rfl, hne, -⟩ := readPiece_eq_ok hok
    have hpos := List.length_pos_iff.mpr hne
    rw [List.length_append]
    omega
  wanted {cs f} hf := by
    unfold readPiece at hf
    split at hf
    · split at hf
      · cases hf
      · cases hf; exact mark_ne_progress
    · cases hf

theorem stops_of_readPiece {cs : List Char} {f : Failure}
    (h : readPiece Char.isAlphanum cs = .error f) : Stops isWordChar cs := by
  intro c hc
  obtain ⟨ds, rfl⟩ := List.head?_eq_some_iff.mp hc
  unfold readPiece at h
  split at h
  · next hnil =>
    split at h
    · cases h
    · next hunderscore =>
      have halnum : c.isAlphanum = false := by
        by_contra hne
        rw [List.takeWhile_cons, if_pos (Bool.not_eq_false _ ▸ hne)] at hnil
        cases hnil
      have hne : c ≠ '_' := fun e => hunderscore (by rw [e]; rfl)
      simp [isWordChar, halnum, hne]
  · cases h

/-- The repetition of pieces takes the characters of a word, all of them and nothing else. -/
theorem Repeats.pieces {cs rest : List Char} {pieces : List (List Char)}
    (h : Repeats (readPiece Char.isAlphanum) cs pieces rest) :
    pieces.flatten = cs.takeWhile isWordChar ∧ rest = cs.dropWhile isWordChar := by
  induction h with
  | stop hf =>
    have hstops := stops_of_readPiece hf
    have htake := takeWhile_of_stops (l := []) (List.forall_mem_nil _) hstops
    exact ⟨htake.symm, (dropWhile_eq_self hstops).symm⟩
  | step hx _ _ ih =>
    obtain ⟨rfl, -, hpiece⟩ := readPiece_eq_ok hx
    have hword : ∀ c ∈ _, isWordChar c = true := fun c hc => by
      rcases hpiece c hc with halnum | rfl
      · simp [isWordChar, halnum]
      · decide
    rw [List.takeWhile_append_of_pos hword, List.dropWhile_append_of_pos hword, List.flatten_cons,
      ih.1]
    exact ⟨rfl, ih.2⟩

theorem many_readPiece (cs : List Char) : ∃ pieces, pieces.flatten = cs.takeWhile isWordChar ∧
    many (readPiece Char.isAlphanum) cs = .ok (pieces, cs.dropWhile isWordChar) := by
  obtain ⟨pieces, rest, hmany, hrepeats⟩ := (progresses_readPiece Char.isAlphanum).ends cs
  obtain ⟨hflatten, rfl⟩ := hrepeats.pieces
  exact ⟨pieces, hflatten, hmany⟩

theorem readWord_of_start_error {cs : List Char} {f : Failure}
    (h : readPiece Char.isAlpha cs = .error f) : readWord cs = .error f := by
  cases cs with
  | nil => cases h; rfl
  | cons c cs =>
    unfold readPiece at h
    split at h
    · next hnil =>
      split at h
      · cases h
      · next hunderscore =>
        cases h
        have hstart : ¬ isWordStart c = true := by
          intro hc
          rcases Bool.or_eq_true .. ▸ hc with halpha | hc
          · rw [List.takeWhile_cons, if_pos halpha] at hnil
            cases hnil
          · exact hunderscore (by rw [of_decide_eq_true hc]; rfl)
        rw [readWord, if_neg hstart]
    · cases h

/-- A word is read in one go as it is read by its pieces. -/
theorem readWord_eq_byPieces : readWord = readWordByPieces := by
  funext cs
  unfold readWordByPieces
  cases hpiece : readPiece Char.isAlpha cs with
  | error f => exact readWord_of_start_error hpiece
  | ok r =>
    obtain ⟨start, rest⟩ := r
    obtain ⟨rfl, hne, hletters⟩ := readPiece_eq_ok hpiece
    obtain ⟨pieces, hflatten, hmany⟩ := many_readPiece rest
    obtain ⟨c, cs, rfl⟩ := List.exists_cons_of_ne_nil hne
    have hstart : ∀ d ∈ c :: cs, isWordStart d = true := fun d hd => by
      simpa [isWordStart] using hletters d hd
    have hword : ∀ d ∈ cs, isWordChar d = true := fun d hd =>
      isWordChar_of_isWordStart (hstart d (List.mem_cons_of_mem c hd))
    simp only [hmany, hflatten]
    rw [List.cons_append, readWord, if_pos (hstart c List.mem_cons_self),
      List.takeWhile_append_of_pos hword, List.dropWhile_append_of_pos hword, List.cons_append]

/-! ## Values, pairs and sections -/

section Parts

variable {value : Reader V} {cs rest : List Char}

theorem length_skipGaps_lt (h : ∃ c ∈ cs.head?, isGap c = true) :
    (skipGaps cs).length < cs.length := by
  obtain ⟨c, hc, hgap⟩ := h
  obtain ⟨ds, rfl⟩ := List.head?_eq_some_iff.mp hc
  unfold skipGaps
  rw [List.dropWhile_cons, if_pos hgap]
  exact Nat.lt_succ_of_le (List.dropWhile_suffix isGap).length_le

theorem skipGaps_eq_self (h : ¬ ∃ c ∈ cs.head?, isGap c = true) : skipGaps cs = cs :=
  dropWhile_eq_self fun c hc => Bool.eq_false_iff.mpr fun hgap => h ⟨c, hc, hgap⟩

/-- A list of values is empty where no value stands; otherwise it takes something off the text. -/
theorem separated_spec {separator : Reader Unit} {item : Reader α} {xs : List α}
    (hseparator : Progresses separator) (hitem : Progresses item)
    (h : separated separator item cs = .ok (xs, rest)) :
    xs = [] ∧ rest = cs ∨ xs ≠ [] ∧ rest <:+: cs ∧ rest.length < cs.length := by
  unfold separated at h
  split at h
  · cases h
    exact .inl ⟨rfl, rfl⟩
  · next x rest' hx =>
    split at h
    · cases h
    · next ys rest'' hmany =>
      cases h
      have hpart := (many_eq_ok_iff.mp hmany).isPart (hseparator.andThen hitem)
      exact .inr ⟨List.cons_ne_nil x ys, hpart.trans (hitem.isPart hx),
        Nat.lt_of_le_of_lt hpart.length_le (hitem.shorter hx)⟩

theorem separated_ne_error {separator : Reader Unit} {item : Reader α} {f : Failure}
    (hseparator : Progresses separator) (hitem : Progresses item) :
    separated separator item cs ≠ .error f := by
  intro h
  unfold separated at h
  split at h
  · cases h
  · next x rest' hx =>
    split at h
    · next g hmany => exact (hseparator.andThen hitem).ends.many_ne_error hmany
    · cases h

/-- What a list of values leaves is a part of the text, shorter unless the list is empty and the text
does not start with a gap. -/
theorem readValues_leaves (hvalue : Progresses value) {vs : List V}
    (h : readValues value cs = .ok (vs, rest)) :
    rest <:+: cs ∧ (rest.length < cs.length ↔ vs ≠ [] ∨ ∃ c ∈ cs.head?, isGap c = true) := by
  have hgaps := (Leaves.skipGaps cs).isInfix
  rcases separated_spec (progresses_readMark ',') hvalue h with
    ⟨rfl, rfl⟩ | ⟨hne, hpart, hlt⟩
  · refine ⟨hgaps, fun hlt => .inr ?_, fun hor => length_skipGaps_lt (hor.resolve_left ?_)⟩
    · by_contra hno
      rw [skipGaps_eq_self hno] at hlt
      exact Nat.lt_irrefl _ hlt
    · exact fun hne => hne rfl
  · exact ⟨hpart.trans hgaps, fun _ => .inl hne, fun _ => Nat.lt_of_lt_of_le hlt hgaps.length_le⟩

theorem progresses_readPair (hvalue : Progresses value) : Progresses (readPair value) := by
  have hparts : ∀ {cs rest : List Char} {p : String × List V}, readPair value cs = .ok (p, rest) →
      ∃ rest₁, readWord cs = .ok (p.1, rest₁) ∧ rest <:+: rest₁ := by
    intro cs rest p h
    obtain ⟨rest₁, rest₂, rest₃, hkey, hcolon, hvalues, rfl⟩ := readPair_eq_ok h
    exact ⟨rest₁, hkey, (Leaves.trim rest₃).isInfix.trans
      ((readValues_leaves hvalue hvalues).1.trans ((progresses_readMark ':').isPart hcolon))⟩
  constructor
  · intro cs rest p h
    obtain ⟨rest₁, hkey, hpart⟩ := hparts h
    exact hpart.trans (progresses_readWord.isPart hkey)
  · intro cs rest p h
    obtain ⟨rest₁, hkey, hpart⟩ := hparts h
    exact Nat.lt_of_le_of_lt hpart.length_le (progresses_readWord.shorter hkey)
  · intro cs f h
    unfold readPair at h
    split at h
    · next g hkey => cases h; exact progresses_readWord.wanted hkey
    · split at h
      · next g hcolon => cases h; exact (progresses_readMark ':').wanted hcolon
      · split at h
        · next g hvalues =>
          exact absurd hvalues (separated_ne_error (progresses_readMark ',') hvalue)
        · cases h

theorem progresses_readPairSpaces (hvalue : Progresses value) :
    Progresses (readPairSpaces value) :=
  (progresses_readPair hvalue).dropping Leaves.skipSpaces

theorem progresses_readSection (hvalue : Progresses value) : Progresses (readSection value) := by
  have htitle := progresses_readTitle.after Leaves.skipSpaces
  have hpairs := ((progresses_readPairSpaces hvalue).many1).after Leaves.skipGaps
  rw [funext (readSection_eq value)]
  exact htitle.both hpairs WrittenSection.mk

theorem progresses_readSectionGaps (hvalue : Progresses value) :
    Progresses (readSectionGaps value) :=
  ((progresses_readSection hvalue).after Leaves.skipGaps).dropping Leaves.skipGaps

theorem progresses_read (hvalue : Progresses value) : Progresses (Document.read value) :=
  (progresses_readSectionGaps hvalue).many1.map Document.ofSections

end Parts

/-! ## All readers -/

/-- The readers of a document whose values are read by `value` make progress, and their repetitions
end: values behind commas, pairs, and sections. -/
structure PartsProgress (value : Reader V) : Prop where
  single : Progresses value
  values_leave : ∀ {cs rest : List Char} {vs : List V}, readValues value cs = .ok (vs, rest) →
    rest <:+: cs ∧ (rest.length < cs.length ↔ vs ≠ [] ∨ ∃ c ∈ cs.head?, isGap c = true)
  values_ok : ∀ cs, ∃ vs rest, readValues value cs = .ok (vs, rest)
  pair : Progresses (readPair value)
  written : Progresses (readSection value)
  document : Progresses (Document.read value)
  values_end : Ends (andThen (readMark ',') value)
  pairs_end : Ends (readPairSpaces value)
  sections_end : Ends (readSectionGaps value)

theorem Progresses.parts {value : Reader V} (h : Progresses value) : PartsProgress value where
  single := h
  values_leave := readValues_leaves h
  values_ok cs := by
    cases hvalues : readValues value cs with
    | error f => exact absurd hvalues (separated_ne_error (progresses_readMark ',') h)
    | ok r => exact ⟨r.1, r.2, rfl⟩
  pair := progresses_readPair h
  written := progresses_readSection h
  document := progresses_read h
  values_end := ((progresses_readMark ',').andThen h).ends
  pairs_end := (progresses_readPairSpaces h).ends
  sections_end := (progresses_readSectionGaps h).ends

/-- **Every reader makes progress on every text.**  Words, titles, tokens, values, pairs, sections and
documents leave a shorter part of the text whenever they succeed, a list of values does so unless it
is empty and no gap stands before it, and none of them fails for want of progress.  So every
repetition ends: the pieces of a word, the values behind commas, the pairs of a section and the
sections of a document. -/
theorem readers_make_progress :
    Progresses readWord ∧ Progresses readTitle ∧
      (readWord = readWordByPieces ∧ Ends (readPiece Char.isAlphanum)) ∧
      PartsProgress readToken ∧ PartsProgress readValue :=
  ⟨progresses_readWord, progresses_readTitle,
    ⟨readWord_eq_byPieces, (progresses_readPiece Char.isAlphanum).ends⟩,
    progresses_readToken.parts, progresses_readValue.parts⟩

end Pivotal.Task
