import Pivotal.Proofs.Task.Layout

/-!
# Writing a document

The plain layout of a sequence of sections: a title on a line of its own, and each pair as
`key: token, token`.  It is one of the layouts (`isLayout_writeSections`), provided that titles and
keys are words, that the tokens are tokens and that every key has one (`IsWritable`).
-/

namespace Pivotal.Task

/-- The line of a pair: `key: token, token`. -/
def pairLine (p : String × List String) : String := p.1 ++ ": " ++ ", ".intercalate p.2

/-- The lines of a section: its title and its pairs. -/
def sectionLines (s : WrittenSection String) : List String := s.title :: s.pairs.map pairLine

/-- The sections one after the other. -/
def writeSections (sections : List (WrittenSection String)) : String :=
  "\n".intercalate (sections.flatMap sectionLines)

/-- What a section must be made of to be written. -/
structure IsWritable (s : WrittenSection String) : Prop where
  title : isWord s.title = true
  keys : ∀ p ∈ s.pairs, isWord p.1 = true
  nonempty : ∀ p ∈ s.pairs, p.2 ≠ []
  tokens : ∀ p ∈ s.pairs, ∀ t ∈ p.2, isToken t = true

theorem valuesText_intercalate {ts : List String} (hne : ts ≠ [])
    (hts : ∀ t ∈ ts, isToken t = true) : ValuesText ts (", ".intercalate ts).toList := by
  rw [String.toList_intercalate]
  induction ts with
  | nil => exact absurd rfl hne
  | cons t ts ih =>
    have ht := hts t List.mem_cons_self
    cases ts with
    | nil =>
      rw [List.map_cons, List.map_nil, List.intercalate_singleton]
      exact .last ht
    | cons u ts =>
      have hrest := ih (List.cons_ne_nil u ts) fun x hx => hts x (List.mem_cons_of_mem t hx)
      have hnext := ValuesText.next ht (List.forall_mem_nil _)
        (List.forall_mem_singleton.mpr (by decide : isSpace ' ' = true)) hrest
      rw [List.map_cons, List.map_cons, List.intercalate_cons_cons, List.append_assoc]
      exact hnext

theorem itemText_pairLine {p : String × List String} (hkey : isWord p.1 = true) (hne : p.2 ≠ [])
    (hts : ∀ t ∈ p.2, isToken t = true) : ItemText (.pair p.1 p.2) (pairLine p).toList := by
  have hpair := ItemText.pair hkey (List.forall_mem_nil _)
    (List.forall_mem_singleton.mpr (by decide : isSpace ' ' = true)) (valuesText_intercalate hne hts)
  unfold pairLine
  rw [String.toList_append, String.toList_append, List.append_assoc]
  exact hpair

theorem forall₂_items {sections : List (WrittenSection String)}
    (h : ∀ s ∈ sections, IsWritable s) :
    List.Forall₂ ItemText (itemsOf sections) ((sections.flatMap sectionLines).map String.toList) := by
  induction sections with
  | nil => exact .nil
  | cons s sections ih =>
    have hs := h s List.mem_cons_self
    have hrest := ih fun x hx => h x (List.mem_cons_of_mem s hx)
    have hpairs : List.Forall₂ ItemText (s.pairs.map fun p => .pair p.1 p.2)
        ((s.pairs.map pairLine).map String.toList) := by
      rw [List.map_map, List.forall₂_map_left_iff, List.forall₂_map_right_iff, List.forall₂_same]
      exact fun p hp => itemText_pairLine (hs.keys p hp) (hs.nonempty p hp) (hs.tokens p hp)
    rw [itemsOf, List.flatMap_cons, List.flatMap_cons, List.map_append]
    exact List.rel_append (.cons (.title hs.title) hpairs) hrest

theorem laid_of_forall₂ {items : List Item} {bare : List (List Char)}
    (h : List.Forall₂ ItemText items bare) : Laid items bare := by
  induction h with
  | nil => exact .done
  | @cons i cs _ _ hitem _ ih =>
    have hlaid := Laid.item (List.forall_mem_nil _) hitem (List.forall_mem_nil _) ih
    rwa [List.append_nil] at hlaid

/-- The plain layout is a layout. -/
theorem isLayout_writeSections {sections : List (WrittenSection String)}
    (h : ∀ s ∈ sections, IsWritable s) : IsLayout sections (writeSections sections).toList :=
  ⟨_, laid_of_forall₂ (forall₂_items h), String.toList_intercalate⟩

end Pivotal.Task
