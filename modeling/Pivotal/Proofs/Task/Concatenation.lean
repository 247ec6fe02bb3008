import Pivotal.Proofs.Task.Filtering
import Pivotal.Proofs.Task.NextLine

/-!
# One text behind another

The lines that are kept of two texts, one behind the other, are those of the first and then those of
the second (`filterComments_feed`).  If the last key of the first has a value, its sections are read
again, and since a title is never taken for a key, those of the second follow (`readSections_concat`).
So the document is that of all the sections, which has the entries of both documents, the second
prevailing (`isMerged_ofSections`).
-/

namespace Pivotal.Task

open Text

variable {V : Type}

/-! ## Kept lines -/

theorem keptLines_append_feed (first second : List Char) :
    keptLines (first ++ '\n' :: second) = keptLines first ++ keptLines second := by
  by_cases hmem : '\n' ∈ first
  · obtain ⟨line, rest, rfl, hline⟩ := List.eq_append_cons_of_mem hmem
    rw [List.append_assoc, List.cons_append, keptLines_feed hline, keptLines_feed hline,
      keptLines_append_feed rest second, List.append_assoc]
  · rw [keptLines_feed hmem, (HasLines.last hmem).keptLines_eq]
termination_by first.length

/-- A line is kept without blanks at its ends. -/
theorem solid_keptLines {text line : List Char} (h : line ∈ keptLines text) : IsSolid line := by
  obtain ⟨⟨whole, -, rfl⟩, hdropped⟩ := mem_keptOf h
  refine isSolid_trim fun hnil => ?_
  rw [hnil] at hdropped
  cases hdropped

theorem solid_filterComments {text : List Char} (h : filterComments text ≠ []) :
    IsSolid (filterComments text) := by
  unfold filterComments at h ⊢
  cases hlines : keptLines text with
  | nil => exact absurd (by rw [hlines]; rfl) h
  | cons b bare =>
    have hsolid : ∀ line ∈ b :: bare, IsSolid line := fun line hline =>
      solid_keptLines (hlines ▸ hline)
    exact solid_intercalate (hsolid b List.mem_cons_self)
      fun line hline => hsolid line (List.mem_cons_of_mem b hline)

theorem intercalate_append {front back : List (List Char)} (hfront : front ≠ []) (hback : back ≠ []) :
    ['\n'].intercalate (front ++ back) =
      ['\n'].intercalate front ++ '\n' :: ['\n'].intercalate back := by
  obtain ⟨b, bare, rfl⟩ := List.exists_cons_of_ne_nil hfront
  obtain ⟨b', bare', rfl⟩ := List.exists_cons_of_ne_nil hback
  have hfurther : furtherLines (bare ++ b' :: bare') = furtherLines bare ++ furtherLines (b' :: bare') :=
    List.flatMap_append
  rw [List.cons_append, intercalate_cons_eq, intercalate_cons_eq, intercalate_cons_eq, hfurther,
    furtherLines_cons, List.append_assoc]

theorem filterComments_feed {first second : List Char} (hfirst : filterComments first ≠ [])
    (hsecond : filterComments second ≠ []) :
    filterComments (first ++ '\n' :: second) =
      filterComments first ++ '\n' :: filterComments second := by
  unfold filterComments at hfirst hsecond ⊢
  rw [keptLines_append_feed]
  refine intercalate_append (fun hnil => hfirst ?_) (fun hnil => hsecond ?_)
  · rw [hnil]
    rfl
  · rw [hnil]
    rfl

/-! ## Sections of an accepted text -/

/-- The values of the last key that is written in a text. -/
def lastValues (text : String) : List String :=
  match readSections readToken (filterComments text.toList) with
  | .ok (sections, _) => ((allPairs sections).getLast?.map (·.2)).getD []
  | .error _ => []

/-- A text is accepted if its sections are read to the end. -/
theorem exists_sections_of_parse {f : String → V} {text : List Char} {d : Document V}
    (h : Document.parse (Reader.map f readToken) text = .ok d) :
    ∃ sections, IsSolid (filterComments text) ∧
      readSections readToken (filterComments text) = .ok (sections, []) ∧
      d = Document.ofSections (sections.map (·.map f)) := by
  rw [Document.parse_map] at h
  unfold Document.parse Document.read at h
  cases hread : readSections readToken (filterComments text) with
  | error e => rw [hread] at h; cases h
  | ok r =>
    obtain ⟨sections, rest⟩ := r
    have hne : filterComments text ≠ [] := by
      intro hnil
      rw [hnil] at hread
      cases hread
    have hsolid := solid_filterComments hne
    have hends : EndsSolid rest := (takes_readSections hread).2.endsSolid hsolid.finish
    rw [hread] at h
    simp only [Except.map] at h
    by_cases hrest : trim rest = []
    · rw [if_pos hrest] at h
      obtain rfl : rest = [] := hends.eq_nil (blank_of_trim hrest)
      refine ⟨sections, hsolid, rfl, ?_⟩
      rw [Document.ofSections_map]
      exact (Except.ok.inj h).symm
    · rw [if_neg hrest] at h
      cases h

theorem parse_of_sections {f : String → V} {text : List Char}
    {sections : List (WrittenSection String)}
    (h : readSections readToken (filterComments text) = .ok (sections, [])) :
    Document.parse (Reader.map f readToken) text =
      .ok (Document.ofSections (sections.map (·.map f))) := by
  rw [Document.parse_map, Document.ofSections_map]
  unfold Document.parse Document.read
  rw [h]
  rfl

theorem endsFull_of_lastValues {text : String} {sections : List (WrittenSection String)}
    (h : readSections readToken (filterComments text.toList) = .ok (sections, []))
    (hlast : lastValues text ≠ []) : EndsFull (allPairs sections) := by
  intro p hp
  unfold lastValues at hlast
  rw [h] at hlast
  simp only [Option.mem_def.mp hp] at hlast
  exact hlast

theorem extendLast_nil (sections : List (WrittenSection V)) : extendLast [] sections = sections := by
  fun_induction extendLast ([] : List (String × List V)) sections with
  | case1 => rfl
  | case2 s => rw [List.append_nil]
  | case3 s s' sections ih => rw [ih]

/-- The sections of two texts, one behind the other. -/
theorem readSections_concat {cs ds : List Char} {sections others : List (WrittenSection String)}
    (hcs : IsSolid cs) (hds : IsSolid ds) (h : readSections readToken cs = .ok (sections, []))
    (hfull : EndsFull (allPairs sections)) (h' : readSections readToken ds = .ok (others, [])) :
    readSections readToken (cs ++ '\n' :: ds) = .ok (sections ++ others, []) := by
  obtain ⟨hne, hsections⟩ := (many1_eq_ok_iff length_lt_of_readSectionGaps).mp h
  obtain ⟨hne', hothers⟩ := (many1_eq_ok_iff length_lt_of_readSectionGaps).mp h'
  have hpair : ∃ f, readPair readToken ds = .error f := by
    cases hothers with
    | stop _ => exact absurd rfl hne'
    | step hs _ _ =>
      rw [readSectionGaps_eq hds.start] at hs
      exact readPair_of_readSection hds.start hs
  obtain ⟨f, hf⟩ := hpair
  have hconcat :=
    hsections.sections_next rfl hcs.ne_nil (.of_solid hcs) hds hfull (.stop hf) hothers
  rw [extendLast_nil] at hconcat
  exact (many1_eq_ok_iff length_lt_of_readSectionGaps).mpr ⟨by simp [hne], hconcat⟩

/-! ## Merged documents -/

/-- As a map, the document has the entries of both, and where both have one that of the second. -/
structure IsMerged (d₁ d₂ d : Document V) : Prop where
  titles_nodup : d.keys.Nodup
  mem_titles : ∀ title, title ∈ d.keys ↔ title ∈ d₁.keys ∨ title ∈ d₂.keys
  keys_nodup : ∀ title, (d.sectionOf title).keys.Nodup
  entries : ∀ title key, (d.sectionOf title).get? key =
    ((d₂.sectionOf title).get? key).or ((d₁.sectionOf title).get? key)

theorem isMerged_ofSections (sections others : List (WrittenSection V)) :
    IsMerged (Document.ofSections sections) (Document.ofSections others)
      (Document.ofSections (sections ++ others)) := by
  have h := isDocumentOf_ofSections (sections ++ others)
  have h₁ := isDocumentOf_ofSections sections
  have h₂ := isDocumentOf_ofSections others
  refine ⟨h.titles_nodup, fun title => ?_, h.keys_nodup, fun title key => ?_⟩
  · rw [h.mem_titles, h₁.mem_titles, h₂.mem_titles]
    simp only [List.mem_append, or_and_right, exists_or]
  · have hpairs : pairsUnder (sections ++ others) title =
        pairsUnder sections title ++ pairsUnder others title := by
      unfold pairsUnder
      rw [List.filter_append, List.flatMap_append]
    rw [h.values, h₁.values, h₂.values, hpairs, List.reverse_append, List.lookup_append,
      Option.map_or]

/-- Two documents without a common entry can be merged in either order. -/
theorem IsMerged.sameMap {d₁ d₂ d d' : Document V} (h : IsMerged d₁ d₂ d) (h' : IsMerged d₂ d₁ d')
    (hdisjoint : ∀ title key,
      (d₁.sectionOf title).get? key = none ∨ (d₂.sectionOf title).get? key = none) :
    Document.SameMap d d' where
  titles title := by rw [h.mem_titles, h'.mem_titles, or_comm]
  entries title key := by
    rw [h.entries, h'.entries]
    rcases hdisjoint title key with hnone | hnone
    · rw [hnone, Option.or_none, Option.none_or]
    · rw [hnone, Option.or_none, Option.none_or]

/-- The second text behind the first reads as the merged documents, and, if nothing is common to them
and the last key of the second has values too, so does the first behind the second. -/
def Merges (parse : String → Except DocumentFault (Document V)) (t₁ t₂ : String) : Prop :=
  ∀ d₁ d₂, parse t₁ = .ok d₁ → parse t₂ = .ok d₂ →
    ∃ d, parse (t₁ ++ "\n" ++ t₂) = .ok d ∧ IsMerged d₁ d₂ d ∧
      (lastValues t₂ ≠ [] → (∀ title key, (d₁.sectionOf title).get? key = none ∨
          (d₂.sectionOf title).get? key = none) →
        ∃ d', parse (t₂ ++ "\n" ++ t₁) = .ok d' ∧ Document.SameMap d d')

section Tokens

variable (f : String → V) {t₁ t₂ : String} {d₁ d₂ : Document V}

theorem exists_isMerged (hlast : lastValues t₁ ≠ [])
    (h₁ : Document.parse (Reader.map f readToken) t₁.toList = .ok d₁)
    (h₂ : Document.parse (Reader.map f readToken) t₂.toList = .ok d₂) :
    ∃ d, Document.parse (Reader.map f readToken) (t₁ ++ "\n" ++ t₂).toList = .ok d ∧
      IsMerged d₁ d₂ d := by
  obtain ⟨sections, hsolid, hread, rfl⟩ := exists_sections_of_parse h₁
  obtain ⟨others, hsolid', hread', rfl⟩ := exists_sections_of_parse h₂
  have htext : (t₁ ++ "\n" ++ t₂).toList = t₁.toList ++ '\n' :: t₂.toList := by simp
  have hconcat :=
    readSections_concat hsolid hsolid' hread (endsFull_of_lastValues hread hlast) hread'
  rw [← filterComments_feed hsolid.ne_nil hsolid'.ne_nil, ← htext] at hconcat
  refine ⟨_, parse_of_sections hconcat, ?_⟩
  rw [List.map_append]
  exact isMerged_ofSections _ _

theorem merges_parse (hlast : lastValues t₁ ≠ []) :
    Merges (fun text => Document.parse (Reader.map f readToken) text.toList) t₁ t₂ := by
  intro d₁ d₂ h₁ h₂
  obtain ⟨d, hd, hmerged⟩ := exists_isMerged f hlast h₁ h₂
  refine ⟨d, hd, hmerged, fun hlast' hdisjoint => ?_⟩
  obtain ⟨d', hd', hmerged'⟩ := exists_isMerged f hlast' h₂ h₁
  exact ⟨d', hd', hmerged.sameMap hmerged' hdisjoint⟩

end Tokens

theorem map_id_readToken : Reader.map id readToken = readToken := by
  funext cs
  unfold Reader.map
  cases readToken cs <;> rfl

/-- **One text behind another reads as the merged documents**, of tokens and of values, provided the
last key of the first text has a value. -/
theorem concatenation_merges {t₁ t₂ : String} (hlast : lastValues t₁ ≠ []) :
    Merges Document.parseTokens t₁ t₂ ∧ Merges Document.parseValues t₁ t₂ := by
  have htokens : Merges (fun text => Document.parse (Reader.map id readToken) text.toList) t₁ t₂ :=
    merges_parse id hlast
  rw [map_id_readToken] at htokens
  exact ⟨htokens, merges_parse tokenValue hlast⟩

/-- A title with two pairs on its line, a comment behind them, and a value on the line after its key; a
key of the first text comes back in the second.  Without it the texts can change places. -/
theorem concatenation_merges_irregular :
    (∃ d, Document.parseTokens ("t a:1 b: 2 ; c" ++ "\n" ++ "t b:\n3\nu v: w") = .ok d ∧
      IsMerged (.mk [("t", .mk [("a", some ["1"]), ("b", some ["2"])])])
        (.mk [("t", .mk [("b", some ["3"])]), ("u", .mk [("v", some ["w"])])]) d) ∧
    ∃ d d', Document.parseTokens ("t a:1" ++ "\n" ++ "u b:\n3") = .ok d ∧
      Document.parseTokens ("u b:\n3" ++ "\n" ++ "t a:1") = .ok d' ∧ Document.SameMap d d' := by
  have hcommon : Document.parseTokens "t a:1 b: 2 ; c" =
      .ok (.mk [("t", .mk [("a", some ["1"]), ("b", some ["2"])])]) := by decide +kernel
  have hother : Document.parseTokens "t b:\n3\nu v: w" =
      .ok (.mk [("t", .mk [("b", some ["3"])]), ("u", .mk [("v", some ["w"])])]) := by
    decide +kernel
  have hfirst : Document.parseTokens "t a:1" = .ok (.mk [("t", .mk [("a", some ["1"])])]) := by
    decide +kernel
  have hsecond : Document.parseTokens "u b:\n3" = .ok (.mk [("u", .mk [("b", some ["3"])])]) := by
    decide +kernel
  obtain ⟨d, hd, hmerged, -⟩ :=
    (concatenation_merges (by decide +kernel)).1 _ _ hcommon hother
  obtain ⟨e, he, -, hswap⟩ :=
    (concatenation_merges (by decide +kernel)).1 _ _ hfirst hsecond
  obtain ⟨e', he', hsame⟩ := hswap (by decide +kernel) fun title key => by
    by_cases htitle : title = "t"
    · exact .inr (by rw [htitle]; rfl)
    · have hnone : (.mk [("t", .mk [("a", some ["1"])])] : Document String).get? title = none :=
        (Dict.lookup_cons_if title "t" _ []).trans (if_neg htitle)
      exact .inl (by rw [Document.sectionOf, hnone]; rfl)
  exact ⟨⟨d, hd, hmerged⟩, e, e', he, he', hsame⟩

end Pivotal.Task
