import Pivotal.Proofs.Task.Merging

/-!
# What is read of an accepted text

Reading gives text back when an item cannot be read, and drops blanks at both ends of what is left,
so it is not plain that a text that was accepted has been read in full.  `Leaves pieces cs rest`
says what a reader did to a text: it took the pieces off its front, in order and with nothing but
blanks around them, and of what is left it dropped blanks only.  Such steps compose
(`Leaves.trans`), so each reader `Takes` the pieces of its parts, and a document that was accepted
is made of sections whose pieces are the whole text (`parseTokens_pieces`).
-/

namespace Pivotal.Task

open Text

/-! ## Pieces of a text -/

/-- The pieces stand in the text one after the other, with nothing but blanks before, between and
behind them. -/
inductive Spaced : List (List Char) → List Char → Prop
  | done {gap : List Char} (hgap : ∀ c ∈ gap, isBlank c = true) : Spaced [] gap
  | piece {ps : List (List Char)} {gap p rest : List Char} (hgap : ∀ c ∈ gap, isBlank c = true)
      (hrest : Spaced ps rest) : Spaced (p :: ps) (gap ++ (p ++ rest))

namespace Spaced

variable {ps qs : List (List Char)} {cs ds : List Char}

theorem nil : Spaced [] [] := .done (List.forall_mem_nil _)

theorem singleton (p : List Char) : Spaced [p] p := by
  have h := Spaced.piece (p := p) (List.forall_mem_nil _) nil
  rwa [List.append_nil] at h

theorem gap_append {gap : List Char} (hgap : ∀ c ∈ gap, isBlank c = true) (h : Spaced qs ds) :
    Spaced qs (gap ++ ds) := by
  cases h with
  | done hds => exact .done (List.forall_mem_append.mpr ⟨hgap, hds⟩)
  | piece hgap' hrest =>
    rw [← List.append_assoc]
    exact .piece (List.forall_mem_append.mpr ⟨hgap, hgap'⟩) hrest

/-- The gap behind the first text and the gap before the second become one. -/
theorem append (h : Spaced ps cs) (h' : Spaced qs ds) : Spaced (ps ++ qs) (cs ++ ds) := by
  induction h with
  | done hgap => exact h'.gap_append hgap
  | piece hgap _ ih =>
    rw [List.append_assoc, List.append_assoc]
    exact .piece hgap ih

end Spaced

/-- The text is the pieces with blanks around them, then the rest, then blanks. -/
def Leaves (pieces : List (List Char)) (cs rest : List Char) : Prop :=
  ∃ front behind, cs = front ++ (rest ++ behind) ∧ Spaced pieces front ∧
    ∀ c ∈ behind, isBlank c = true

namespace Leaves

variable {ps qs : List (List Char)} {cs ds rest : List Char}

theorem refl (cs : List Char) : Leaves [] cs cs :=
  ⟨[], [], (List.append_nil cs).symm, .nil, List.forall_mem_nil _⟩

theorem piece (p rest : List Char) : Leaves [p] (p ++ rest) rest :=
  ⟨p, [], by rw [List.append_nil], .singleton p, List.forall_mem_nil _⟩

theorem trans (h : Leaves ps cs ds) (h' : Leaves qs ds rest) : Leaves (ps ++ qs) cs rest := by
  obtain ⟨front, behind, rfl, hfront, hbehind⟩ := h
  obtain ⟨front', behind', rfl, hfront', hbehind'⟩ := h'
  refine ⟨front ++ front', behind' ++ behind, by simp only [List.append_assoc],
    hfront.append hfront', ?_⟩
  exact List.forall_mem_append.mpr ⟨hbehind', hbehind⟩

/-- Nothing but blanks is left, so the pieces are the whole text. -/
theorem spaced (h : Leaves ps cs rest) (hrest : ∀ c ∈ rest, isBlank c = true) : Spaced ps cs := by
  obtain ⟨front, behind, rfl, hfront, hbehind⟩ := h
  have hend : Spaced [] (rest ++ behind) := .done (List.forall_mem_append.mpr ⟨hrest, hbehind⟩)
  have happend := hfront.append hend
  rwa [List.append_nil] at happend

/-! ## Dropping blanks -/

theorem dropWhile {p : Char → Bool} (hp : ∀ c, p c = true → isBlank c = true) (cs : List Char) :
    Leaves [] cs (cs.dropWhile p) := by
  have hfront : ∀ c ∈ cs.takeWhile p, isBlank c = true := fun c hc =>
    hp c (List.all_eq_true.mp List.all_takeWhile c hc)
  refine ⟨cs.takeWhile p, [], ?_, .done hfront, List.forall_mem_nil _⟩
  rw [List.append_nil, List.takeWhile_append_dropWhile]

theorem skipSpaces (cs : List Char) : Leaves [] cs (skipSpaces cs) :=
  dropWhile (fun c hc => isBlank_of_isGap (by simp [isGap, hc])) cs

theorem skipGaps (cs : List Char) : Leaves [] cs (skipGaps cs) :=
  dropWhile (fun _ hc => isBlank_of_isGap hc) cs

theorem trimEnd (cs : List Char) : Leaves [] cs (trimEnd cs) := by
  refine ⟨[], (cs.reverse.takeWhile isBlank).reverse, ?_, .nil, fun c hc => ?_⟩
  · rw [List.nil_append, Text.trimEnd, ← List.reverse_append, List.takeWhile_append_dropWhile,
      List.reverse_reverse]
  · exact List.all_eq_true.mp List.all_takeWhile c (List.mem_reverse.mp hc)

theorem trim (cs : List Char) : Leaves [] cs (trim cs) :=
  (dropWhile (fun _ hc => hc) cs).trans (trimEnd _)

end Leaves

/-- A text of which trimming leaves nothing is blank. -/
theorem blank_of_trim {cs : List Char} (h : trim cs = []) : ∀ c ∈ cs, isBlank c = true := by
  have hleaves := Leaves.trim cs
  rw [h] at hleaves
  have hspaced := hleaves.spaced (List.forall_mem_nil _)
  cases hspaced with
  | done hgap => exact hgap

/-! ## Readers that take their pieces -/

variable {α β : Type}

/-- Whatever the reader reads is good, and it took its pieces off the text. -/
def Takes (item : Reader α) (pieces : α → List (List Char)) (Good : α → Prop) : Prop :=
  ∀ ⦃cs x rest⦄, item cs = .ok (x, rest) → Good x ∧ Leaves (pieces x) cs rest

section Blanks

variable {item : Reader α} {pieces : α → List (List Char)} {Good : α → Prop}
  {drop : List Char → List Char}

/-- Blanks that are dropped before the item. -/
theorem Takes.after (hitem : Takes item pieces Good) (hdrop : ∀ cs, Leaves [] cs (drop cs)) :
    Takes (fun cs => item (drop cs)) pieces Good := by
  intro cs x rest h
  obtain ⟨hgood, hleaves⟩ := hitem h
  exact ⟨hgood, (hdrop cs).trans hleaves⟩

/-- Blanks that are dropped of what the item leaves. -/
theorem Takes.dropping (hitem : Takes item pieces Good) (hdrop : ∀ cs, Leaves [] cs (drop cs)) :
    Takes (fun cs => (item cs).map fun (x, rest) => (x, drop rest)) pieces Good := by
  intro cs x rest h
  dsimp only at h
  cases hx : item cs with
  | error f => rw [hx] at h; cases h
  | ok r =>
    obtain ⟨y, rest'⟩ := r
    rw [hx] at h
    cases h
    obtain ⟨hgood, hleaves⟩ := hitem hx
    have hdropped := hleaves.trans (hdrop rest')
    rw [List.append_nil] at hdropped
    exact ⟨hgood, hdropped⟩

end Blanks

theorem takes_readMark (m : Char) : Takes (readMark m) (fun _ => [[m]]) fun _ => True := by
  intro cs x rest h
  refine ⟨trivial, ?_⟩
  have hspaces := Leaves.skipSpaces cs
  unfold readMark at h
  split at h
  · cases h
  · next c ds heq =>
    rw [heq] at hspaces
    split at h
    · next hc =>
      cases h
      subst hc
      exact hspaces.trans ((Leaves.piece [c] ds).trans (Leaves.skipSpaces ds))
    · cases h

theorem takes_readWord : Takes readWord (fun w => [w.toList]) fun w => isWord w = true := by
  intro cs w rest h
  cases cs with
  | nil => cases h
  | cons c cs =>
    rw [readWord] at h
    split at h
    · next hc =>
      cases h
      have htext : (String.ofList (c :: cs.takeWhile isWordChar)).toList =
        c :: cs.takeWhile isWordChar := String.toList_ofList
      constructor
      · show isWord (String.ofList _) = true
        unfold isWord
        rw [htext]
        simp only [hc, Bool.true_and]
        exact List.all_takeWhile
      · have hpiece := Leaves.piece (c :: cs.takeWhile isWordChar) (cs.dropWhile isWordChar)
        rw [List.cons_append, List.takeWhile_append_dropWhile] at hpiece
        show Leaves [(String.ofList _).toList] _ _
        rwa [htext]
    · cases h

/-- A token is not empty, and none of its characters ends a token. -/
def IsTokenText (t : String) : Prop :=
  t.toList ≠ [] ∧ ∀ c ∈ t.toList, c ∉ [',', ';', ' ', '\t', '\r', '\n']

theorem not_mem_of_isTokenChar {c : Char} (hc : isTokenChar c = true) :
    c ∉ [',', ';', ' ', '\t', '\r', '\n'] := by
  intro hmem
  simp only [isTokenChar, isGap, isSpace, Bool.not_eq_true', Bool.or_eq_false_iff,
    decide_eq_false_iff_not] at hc
  simp only [List.mem_cons, List.not_mem_nil, or_false] at hmem
  tauto

theorem takes_readToken : Takes readToken (fun t => [t.toList]) IsTokenText := by
  intro cs t rest h
  unfold readToken at h
  split at h
  · cases h
  · next hne =>
    cases h
    have htext : (String.ofList (cs.takeWhile isTokenChar)).toList = cs.takeWhile isTokenChar :=
      String.toList_ofList
    constructor
    · rw [IsTokenText, htext]
      exact ⟨hne, fun c hc =>
        not_mem_of_isTokenChar (List.all_eq_true.mp List.all_takeWhile c hc)⟩
    · have hpiece := Leaves.piece (cs.takeWhile isTokenChar) (cs.dropWhile isTokenChar)
      rw [List.takeWhile_append_dropWhile] at hpiece
      show Leaves [(String.ofList _).toList] _ _
      rwa [htext]

section Repetition

variable {item : Reader α} {pieces : α → List (List Char)} {Good : α → Prop}

theorem takes_many (hitem : Takes item pieces Good) :
    Takes (many item) (·.flatMap pieces) fun xs => ∀ x ∈ xs, Good x := by
  intro cs xs rest h
  fun_induction many item cs generalizing xs rest with
  | case1 cs f hf =>
    cases h
    exact ⟨List.forall_mem_nil _, Leaves.refl cs⟩
  | case2 cs x rest' hx hlt f hf ih => cases h
  | case3 cs x rest' hx hlt ys rest'' hmany ih =>
    cases h
    obtain ⟨hgood, hleaves⟩ := hitem hx
    obtain ⟨hgoods, hrest⟩ := ih hmany
    exact ⟨List.forall_mem_cons.mpr ⟨hgood, hgoods⟩, hleaves.trans hrest⟩
  | case4 cs x rest' hx hlt => cases h

theorem takes_many1 (hitem : Takes item pieces Good) :
    Takes (many1 item) (·.flatMap pieces) fun xs => xs ≠ [] ∧ ∀ x ∈ xs, Good x := by
  intro cs xs rest h
  unfold many1 at h
  split at h
  · cases h
  · next x rest' hx =>
    split at h
    · cases h
    · next ys rest'' hmany =>
      cases h
      obtain ⟨hgood, hleaves⟩ := hitem hx
      obtain ⟨hgoods, hrest⟩ := takes_many hitem hmany
      exact ⟨⟨List.cons_ne_nil x ys, List.forall_mem_cons.mpr ⟨hgood, hgoods⟩⟩, hleaves.trans hrest⟩

theorem takes_andThen {first : Reader β} {mark : List (List Char)}
    (hfirst : Takes first (fun _ => mark) fun _ => True) (hitem : Takes item pieces Good) :
    Takes (andThen first item) (fun x => mark ++ pieces x) Good := by
  intro cs x rest h
  unfold andThen at h
  split at h
  · cases h
  · next y rest' hy =>
    obtain ⟨hgood, hleaves⟩ := hitem h
    exact ⟨hgood, (hfirst hy).2.trans hleaves⟩

end Repetition

/-! ## Values, pairs and sections -/

theorem intersperse_cons (m t : List Char) (ts : List (List Char)) :
    (t :: ts).intersperse m = t :: ts.flatMap fun u => [m, u] := by
  induction ts generalizing t with
  | nil => rfl
  | cons u ts ih => rw [List.intersperse_cons_cons, ih, List.flatMap_cons]; rfl

/-- The pieces of a list of values: commas stand between the tokens. -/
def valuePieces (ts : List String) : List (List Char) := (ts.map String.toList).intersperse [',']

/-- The pieces of a pair: its key, a colon and its values. -/
def pairPieces (p : String × List String) : List (List Char) :=
  p.1.toList :: [':'] :: valuePieces p.2

/-- The pieces of a section: its title and those of its pairs. -/
def sectionPieces (s : WrittenSection String) : List (List Char) :=
  s.title.toList :: s.pairs.flatMap pairPieces

/-- What the parts of a pair are. -/
def IsPair (p : String × List String) : Prop := isWord p.1 = true ∧ ∀ t ∈ p.2, IsTokenText t

/-- What the parts of a section are. -/
structure IsSection (s : WrittenSection String) : Prop where
  title : isWord s.title = true
  nonempty : s.pairs ≠ []
  pairs : ∀ p ∈ s.pairs, IsPair p

theorem takes_readValues :
    Takes (readValues readToken) valuePieces fun ts => ∀ t ∈ ts, IsTokenText t := by
  intro cs ts rest h
  have hgaps := Leaves.skipGaps cs
  unfold readValues separated at h
  split at h
  · cases h
    exact ⟨List.forall_mem_nil _, hgaps⟩
  · next t rest' ht =>
    split at h
    · cases h
    · next us rest'' hmany =>
      cases h
      obtain ⟨htoken, hleaves⟩ := takes_readToken ht
      obtain ⟨htokens, hrest⟩ :=
        takes_many (takes_andThen (takes_readMark ',') takes_readToken) hmany
      refine ⟨List.forall_mem_cons.mpr ⟨htoken, htokens⟩, ?_⟩
      rw [valuePieces, List.map_cons, intersperse_cons, List.flatMap_map]
      exact hgaps.trans (hleaves.trans hrest)

theorem takes_readPair : Takes (readPair readToken) pairPieces IsPair := by
  intro cs p rest h
  unfold readPair at h
  split at h
  · cases h
  · next key rest₁ hkey =>
    split at h
    · cases h
    · next rest₂ hcolon =>
      split at h
      · cases h
      · next ts rest₃ hvalues =>
        cases h
        obtain ⟨hword, hleaves₁⟩ := takes_readWord hkey
        obtain ⟨-, hleaves₂⟩ := takes_readMark ':' hcolon
        obtain ⟨htokens, hleaves₃⟩ := takes_readValues hvalues
        refine ⟨⟨hword, htokens⟩, ?_⟩
        have hleaves := hleaves₁.trans (hleaves₂.trans (hleaves₃.trans (Leaves.trim rest₃)))
        rwa [List.append_nil] at hleaves

theorem takes_readPairSpaces : Takes (readPairSpaces readToken) pairPieces IsPair :=
  takes_readPair.dropping Leaves.skipSpaces

theorem takes_readTitle : Takes readTitle (fun w => [w.toList]) fun w => isWord w = true :=
  takes_readWord.dropping Leaves.trim

theorem takes_readSection : Takes (readSection readToken) sectionPieces IsSection := by
  intro cs s rest h
  unfold readSection at h
  split at h
  · cases h
  · next title rest₁ htitle =>
    dsimp only at h
    split at h
    · cases h
    · next pairs rest₂ hmany =>
      cases h
      obtain ⟨hword, hleaves₁⟩ := takes_readTitle htitle
      obtain ⟨⟨hne, hpairs⟩, hleaves₂⟩ := takes_many1 takes_readPairSpaces hmany
      refine ⟨⟨hword, hne, hpairs⟩, ?_⟩
      exact (Leaves.skipSpaces cs).trans
        (hleaves₁.trans ((Leaves.skipGaps rest₁).trans hleaves₂))

theorem takes_readSections : Takes (readSections readToken) (·.flatMap sectionPieces)
    fun sections => sections ≠ [] ∧ ∀ s ∈ sections, IsSection s :=
  takes_many1 ((takes_readSection.after Leaves.skipGaps).dropping Leaves.skipGaps)

/-! ## Accepted texts -/

/-- **An accepted text is read in full.**  The pieces of its sections are the whole text without its
comments, blanks apart, and the document holds what the sections say. -/
theorem parseTokens_pieces {text : String} {d : Document String}
    (h : Document.parseTokens text = .ok d) :
    ∃ sections, sections ≠ [] ∧ (∀ s ∈ sections, IsSection s) ∧
      Spaced (sections.flatMap sectionPieces) (filterComments text.toList) ∧
      IsDocumentOf sections d := by
  unfold Document.parseTokens Document.parse Document.read at h
  cases hread : readSections readToken (filterComments text.toList) with
  | error f => rw [hread] at h; cases h
  | ok r =>
    obtain ⟨sections, rest⟩ := r
    rw [hread] at h
    simp only [Except.map] at h
    split at h
    · next hrest =>
      cases h
      obtain ⟨⟨hne, hsections⟩, hleaves⟩ := takes_readSections hread
      exact ⟨sections, hne, hsections, hleaves.spaced (blank_of_trim hrest),
        isDocumentOf_ofSections sections⟩
    · cases h

/-- A title behind a blank that is no space, a value that runs on to the next line and looks like a
title there, a key that comes back, and a key without values. -/
theorem parseTokens_pieces_run_on :
    Document.parseTokens "t\u00a0; c\n k: 1 , x:y\u00a0z u:\nt k : 3\n_s v:" =
        .ok (.mk [("t", .mk [("k", some ["3"]), ("u", some ["t"])]),
          ("_s", .mk [("v", some [])])]) ∧
      ∃ sections, sections ≠ [] ∧ (∀ s ∈ sections, IsSection s) ∧
        Spaced (sections.flatMap sectionPieces)
          (filterComments "t\u00a0; c\n k: 1 , x:y\u00a0z u:\nt k : 3\n_s v:".toList) ∧
        IsDocumentOf sections
          (.mk [("t", .mk [("k", some ["3"]), ("u", some ["t"])]),
            ("_s", .mk [("v", some [])])]) := by
  have hparse : Document.parseTokens "t\u00a0; c\n k: 1 , x:y\u00a0z u:\nt k : 3\n_s v:" =
      .ok (.mk [("t", .mk [("k", some ["3"]), ("u", some ["t"])]),
        ("_s", .mk [("v", some [])])]) := by
    decide +kernel
  exact ⟨hparse, parseTokens_pieces hparse⟩

end Pivotal.Task
