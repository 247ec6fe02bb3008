import Pivotal.Proofs.Task.Reading
import Pivotal.Task.Document

/-!
# The document of a layout

Every layout of a sequence of sections reads as the document in which a key has the tokens of its
last pair, wherever a section with its title stands, and which has no other titles and keys
(`parseTokens_layout`).

`IsDocumentOf` says so of a document as a map.  Merging one more section keeps it
(`IsDocumentOf.add`), so it holds of the document of any sequence (`isDocumentOf_ofSections`); that a
layout reads as its sections is `parse_layout`.
-/

namespace Pivotal.Task

variable {V : Type}

/-- The pairs under a title, in the order in which they are written: those of all its sections. -/
def pairsUnder (sections : List (WrittenSection V)) (title : String) : List (String × List V) :=
  (sections.filter (·.title = title)).flatMap (·.pairs)

/-- As a map, the document holds what the sections say. -/
structure IsDocumentOf (sections : List (WrittenSection V)) (d : Document V) : Prop where
  /-- Each title stands once. -/
  titles_nodup : d.keys.Nodup
  /-- The titles are those of the sections. -/
  mem_titles : ∀ title, title ∈ d.keys ↔ ∃ s ∈ sections, s.title = title
  /-- Each key of a section stands once. -/
  keys_nodup : ∀ title, (d.sectionOf title).keys.Nodup
  /-- The values of a key are those of its last pair. -/
  values : ∀ title key,
    (d.sectionOf title).get? key = ((pairsUnder sections title).reverse.lookup key).map some

/-- The same entries under the same titles, in whatever order. -/
structure Document.SameMap (d e : Document V) : Prop where
  titles : ∀ title, title ∈ d.keys ↔ title ∈ e.keys
  entries : ∀ title key, (d.sectionOf title).get? key = (e.sectionOf title).get? key

/-! ## Merging -/

theorem pairsUnder_concat (sections : List (WrittenSection V)) (s : WrittenSection V)
    (title : String) : pairsUnder (sections ++ [s]) title =
      pairsUnder sections title ++ if s.title = title then s.pairs else [] := by
  unfold pairsUnder
  rw [List.filter_append, List.flatMap_append]
  by_cases h : s.title = title
  · simp [h]
  · simp [h]

theorem lookup_map_some (pairs : List (String × List V)) (key : String) :
    (pairs.map fun p => (p.1, some p.2)).lookup key = (pairs.lookup key).map some := by
  induction pairs with
  | nil => rfl
  | cons p pairs ih =>
    rw [List.map_cons, Dict.lookup_cons_if, Dict.lookup_cons_if, ih]
    split <;> rfl

namespace Document

/-- Merging changes the section of one title only. -/
theorem sectionOf_add (d : Document V) (s : WrittenSection V) (title : String) :
    (d.add s).sectionOf title = if title = s.title then
      (d.sectionOf title).putAll (s.pairs.map fun p => (p.1, some p.2)) else d.sectionOf title := by
  unfold add
  rw [sectionOf, Dict.get?_put]
  by_cases h : title = s.title
  · rw [if_pos h, if_pos h, h]
    rfl
  · rw [if_neg h, if_neg h]
    rfl

end Document

theorem isDocumentOf_nil : IsDocumentOf ([] : List (WrittenSection V)) ∅ where
  titles_nodup := Dict.nodup_keys _
  mem_titles title := by simp [Dict.mem_keys_iff]
  keys_nodup _ := Dict.nodup_keys _
  values _ _ := rfl

theorem IsDocumentOf.add {sections : List (WrittenSection V)} {d : Document V}
    (h : IsDocumentOf sections d) (s : WrittenSection V) :
    IsDocumentOf (sections ++ [s]) (d.add s) where
  titles_nodup := Dict.nodup_keys _
  mem_titles title := by
    have hmem := h.mem_titles title
    rw [Dict.mem_keys_iff] at hmem ⊢
    unfold Document.add
    rw [Dict.get?_put]
    by_cases heq : title = s.title
    · simp [heq]
    · have hne : s.title ≠ title := fun hs => heq hs.symm
      rw [if_neg heq, hmem]
      simp [hne]
  keys_nodup _ := Dict.nodup_keys _
  values title key := by
    rw [Document.sectionOf_add, pairsUnder_concat, List.reverse_append, List.lookup_append]
    by_cases heq : title = s.title
    · rw [if_pos heq, if_pos heq.symm, Dict.get?_putAll, h.values title key, ← List.map_reverse,
        lookup_map_some]
      cases s.pairs.reverse.lookup key <;> rfl
    · rw [if_neg heq, if_neg fun hs => heq hs.symm, h.values title key]
      rfl

theorem isDocumentOf_ofSections (sections : List (WrittenSection V)) :
    IsDocumentOf sections (Document.ofSections sections) := by
  -- the sections already merged are a parameter of the induction
  have hfold : ∀ (more merged : List (WrittenSection V)) (d : Document V),
      IsDocumentOf merged d → IsDocumentOf (merged ++ more) (more.foldl Document.add d) := by
    intro more
    induction more with
    | nil =>
      intro merged d h
      rwa [List.append_nil]
    | cons s more ih =>
      intro merged d h
      have hnext := ih (merged ++ [s]) (d.add s) (h.add s)
      rwa [List.append_assoc, List.singleton_append] at hnext
  exact hfold sections [] ∅ isDocumentOf_nil

/-- A written section as a section of a document. -/
def WrittenSection.toSection (s : WrittenSection V) : Section V :=
  Dict.putAll ∅ (s.pairs.map fun p => (p.1, some p.2))

/-- Pairs with different keys are kept as they are. -/
theorem entries_toSection {s : WrittenSection V} (h : (s.pairs.map Prod.fst).Nodup) :
    s.toSection.entries = s.pairs.map fun p => (p.1, some p.2) := by
  have hkeys : ((s.pairs.map fun p => (p.1, some p.2)).map Prod.fst).Nodup := by
    rwa [List.map_map]
  exact Dict.entries_putAll_of_nodup hkeys

theorem map_fst_pairs_map {W : Type} (f : V → W) (s : WrittenSection V) :
    (s.map f).pairs.map Prod.fst = s.pairs.map Prod.fst := by
  unfold WrittenSection.map
  rw [List.map_map]
  rfl

theorem keys_toSection_map {W : Type} (f : V → W) {s : WrittenSection V}
    (h : (s.pairs.map Prod.fst).Nodup) : (s.map f).toSection.keys = s.pairs.map Prod.fst := by
  rw [← map_fst_pairs_map f s] at h ⊢
  unfold Dict.keys
  rw [entries_toSection h, List.map_map]
  rfl

/-- Sections with different titles are not merged. -/
theorem Document.ofSections_of_nodup {sections : List (WrittenSection V)}
    (htitles : (sections.map (·.title)).Nodup) :
    Document.ofSections sections =
      Dict.putAll ∅ (sections.map fun s => (s.title, s.toSection)) := by
  -- the document of the sections already merged is a parameter of the induction
  have hrun : ∀ (d : Document V) (more : List (WrittenSection V)),
      (d.keys ++ more.map (·.title)).Nodup →
      more.foldl Document.add d = d.putAll (more.map fun s => (s.title, s.toSection)) := by
    intro d more
    induction more generalizing d with
    | nil => exact fun _ => rfl
    | cons s more ih =>
      intro hnodup
      have hnew : s.title ∉ d.keys := by
        rw [List.nodup_append] at hnodup
        exact fun hmem => hnodup.2.2 s.title hmem s.title List.mem_cons_self rfl
      have hadd : d.add s = d.put s.title s.toSection := by
        have hempty : d.sectionOf s.title = ∅ := by
          rw [Dict.mem_keys_iff, Option.not_isSome_iff_eq_none] at hnew
          rw [Document.sectionOf, hnew]
          rfl
        rw [Document.add, hempty]
        rfl
      have hkeys : (d.put s.title s.toSection).keys = d.keys ++ [s.title] := by
        rw [Dict.keys_put, if_neg hnew]
      rw [List.foldl_cons, hadd]
      refine ih _ ?_
      rwa [hkeys, List.append_assoc]
  exact hrun ∅ sections htitles

/-! ## Templates -/

theorem Document.expectKeys_eq_self {s : Section V} {keys : List String}
    (h : ∀ key ∈ keys, (s.get? key).isSome = true) : Document.expectKeys s keys = s := by
  unfold Document.expectKeys
  induction keys with
  | nil => rfl
  | cons key keys ih =>
    rw [List.foldl_cons, if_pos (h key List.mem_cons_self)]
    exact ih fun k hk => h k (List.mem_cons_of_mem key hk)

/-- A template adds nothing to a document that has all its keys. -/
theorem Document.applyTemplate_eq_self {W : Type} {d : Document V} {template : Document W}
    (h : ∀ e ∈ template.entries, ∃ s, d.get? e.1 = some s ∧
      ∀ key ∈ e.2.keys, (s.get? key).isSome = true) : d.applyTemplate template = d := by
  unfold Document.applyTemplate
  generalize template.entries = entries at h
  induction entries with
  | nil => rfl
  | cons e entries ih =>
    obtain ⟨s, hs, hkeys⟩ := h e List.mem_cons_self
    have hsection : d.sectionOf e.1 = s := by
      unfold Document.sectionOf
      rw [hs]
      rfl
    rw [List.foldl_cons, hsection, Document.expectKeys_eq_self hkeys, Dict.put_of_get? hs]
    exact ih fun e' he => h e' (List.mem_cons_of_mem e he)

/-- An expected key is there without values, unless it was there before. -/
theorem Document.get?_expectKeys (s : Section V) (keys : List String) (key : String) :
    (Document.expectKeys s keys).get? key =
      (s.get? key).or (if key ∈ keys then some none else none) := by
  unfold Document.expectKeys
  induction keys generalizing s with
  | nil => simp
  | cons k keys ih =>
    rw [List.foldl_cons, ih]
    by_cases hk : key = k
    · subst hk
      cases hs : s.get? key with
      | none => simp [Dict.get?_put]
      | some values => simp [hs]
    · have hget : (if (s.get? k).isSome then s else s.put k none).get? key = s.get? key := by
        split
        · rfl
        · rw [Dict.get?_put, if_neg hk]
      simp [hget, hk]

theorem Document.values?_eq (d : Document V) (title key : String) :
    d.values? title key = ((d.sectionOf title).get? key).join := by
  unfold Document.values? Document.sectionOf
  cases d.get? title <;> rfl

/-- A template adds no values. -/
theorem Document.values?_applyTemplate {W : Type} (d : Document V) (template : Document W)
    (title key : String) : (d.applyTemplate template).values? title key = d.values? title key := by
  unfold Document.applyTemplate
  induction template.entries generalizing d with
  | nil => rfl
  | cons e entries ih =>
    rw [List.foldl_cons, ih]
    simp only [Document.values?_eq]
    rw [Document.sectionOf, Dict.get?_put]
    by_cases htitle : title = e.1
    · rw [if_pos htitle, Option.getD_some, Document.get?_expectKeys, htitle]
      cases (d.sectionOf e.1).get? key with
      | none => split <;> rfl
      | some values => rfl
    · rw [if_neg htitle]
      rfl

/-! ## Layouts -/

theorem map_id_sections (sections : List (WrittenSection V)) :
    sections.map (·.map id) = sections := by
  have hsection : ∀ s : WrittenSection V, s.map id = s := by
    intro s
    simp [WrittenSection.map]
  simp [hsection]

/-- A layout reads as its sections, whatever becomes of the tokens. -/
theorem parse_layout {value : Reader V} {f : String → V} (hvalue : ReadsTokens value f)
    {sections : List (WrittenSection String)} {text : List Char} (hne : sections ≠ [])
    (hpairs : ∀ s ∈ sections, s.pairs ≠ []) (h : IsLayout sections text) :
    Document.parse value text = .ok (Document.ofSections (sections.map (·.map f))) := by
  obtain ⟨bare, hbare, htext⟩ := filterComments_of_layout h
  unfold Document.parse Document.read
  rw [htext, readSections_bare hvalue hne hpairs hbare]
  rfl

/-- With different titles nothing is merged. -/
theorem parse_layout_distinct {value : Reader V} {f : String → V} (hvalue : ReadsTokens value f)
    {sections : List (WrittenSection String)} {text : List Char} (hne : sections ≠ [])
    (hpairs : ∀ s ∈ sections, s.pairs ≠ []) (h : IsLayout sections text)
    (htitles : (sections.map (·.title)).Nodup) :
    Document.parse value text =
      .ok (Dict.putAll ∅ (sections.map fun s => (s.title, (s.map f).toSection))) := by
  rw [parse_layout hvalue hne hpairs h, Document.ofSections_of_nodup, List.map_map]
  · rfl
  · rw [List.map_map]
    exact htitles

/-- **Every layout of a document reads as that document.** -/
theorem parseTokens_layout {sections : List (WrittenSection String)} {text : String}
    (hne : sections ≠ []) (hpairs : ∀ s ∈ sections, s.pairs ≠ [])
    (h : IsLayout sections text.toList) :
    ∃ d, Document.parseTokens text = .ok d ∧ IsDocumentOf sections d := by
  refine ⟨Document.ofSections sections, ?_, isDocumentOf_ofSections sections⟩
  unfold Document.parseTokens
  rw [parse_layout readsTokens_readToken hne hpairs h, map_id_sections]

/-- A title that comes back, a key that comes back in both places, and blanks of many kinds. -/
theorem parseTokens_layout_merged :
    ∃ d, Document.parseTokens
        "\n  ta \r\nk:1 ,\tx//y\n\tk : 2\n\n_b\nu:://\n ta\t\nk: 3,4 \n" = .ok d ∧
      IsDocumentOf [⟨"ta", [("k", ["1", "x//y"]), ("k", ["2"])]⟩, ⟨"_b", [("u", ["://"])]⟩,
        ⟨"ta", [("k", ["3", "4"])]⟩] d := by
  have all : ∀ {p : Char → Bool} {l : List Char}, l.all p = true → ∀ c ∈ l, p c = true :=
    fun h => List.all_eq_true.mp h
  have hlaid : Laid [.title "ta", .pair "k" ["1", "x//y"], .pair "k" ["2"], .title "_b",
      .pair "u" ["://"], .title "ta", .pair "k" ["3", "4"]] _ :=
    @Laid.blank _ _ [] (all rfl) <|
      .item (l := [' ', ' ']) (r := [' ', '\r']) (all rfl) (.title (by decide)) (all rfl) <|
      .item (l := []) (r := []) (all rfl)
        (.pair (l := []) (r := []) (by decide) (all rfl) (all rfl)
          (.next (l := [' ']) (r := ['\t']) (by decide) (all rfl) (all rfl)
            (.last (by decide)))) (all rfl) <|
      .item (l := ['\t']) (r := []) (all rfl)
        (.pair (l := [' ']) (r := [' ']) (by decide) (all rfl) (all rfl)
          (.last (by decide))) (all rfl) <|
      @Laid.blank _ _ [] (all rfl) <|
      .item (l := []) (r := []) (all rfl) (.title (by decide)) (all rfl) <|
      .item (l := []) (r := []) (all rfl)
        (.pair (l := []) (r := []) (by decide) (all rfl) (all rfl)
          (.last (by decide))) (all rfl) <|
      .item (l := [' ']) (r := ['\t']) (all rfl) (.title (by decide)) (all rfl) <|
      .item (l := []) (r := [' ']) (all rfl)
        (.pair (l := []) (r := [' ']) (by decide) (all rfl) (all rfl)
          (.next (l := []) (r := []) (by decide) (all rfl) (all rfl)
            (.last (by decide)))) (all rfl) <|
      @Laid.blank _ _ [] (all rfl) .done
  exact parseTokens_layout (by decide) (by decide) ⟨_, hlaid, by decide⟩

end Pivotal.Task
