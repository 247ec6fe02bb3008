import Pivotal.Proofs.Task.Merging

/-!
# Templates

A template adds to each section the keys it expects there (`sectionOf_applyTemplate`) and adds no title
but its own (`mem_keys_applyTemplate`).  As a map, the document does not depend on the order of two
templates (`sameMap_applyTemplate_comm`), and a template applied again changes nothing
(`applyTemplate_idem`).

The keys that a section lacked come behind those it had (`exists_entries_expectKeys`), without values;
so whoever goes through the entries meets the old ones first and in their old order.
-/

namespace Pivotal.Task.Document

variable {V W : Type}

/-- The keys that a template expects under a title. -/
def expectedKeys (template : Document W) (title : String) : List String :=
  (template.entries.filter (·.1 = title)).flatMap (·.2.keys)

/-! ## Sections -/

theorem expectKeys_append (s : Section V) (keys more : List String) :
    expectKeys s (keys ++ more) = expectKeys (expectKeys s keys) more :=
  List.foldl_append

/-- The keys that are added come last. -/
theorem exists_entries_expectKeys (s : Section V) (keys : List String) :
    ∃ added, (expectKeys s keys).entries = s.entries ++ added ∧ ∀ e ∈ added, e.1 ∈ keys := by
  induction keys generalizing s with
  | nil => exact ⟨[], (List.append_nil _).symm, fun e he => absurd he List.not_mem_nil⟩
  | cons key keys ih =>
    unfold expectKeys
    rw [List.foldl_cons]
    by_cases hkey : (s.get? key).isSome = true
    · rw [if_pos hkey]
      obtain ⟨added, hentries, hadded⟩ := ih s
      exact ⟨added, hentries, fun e he => List.mem_cons_of_mem key (hadded e he)⟩
    · rw [if_neg hkey]
      have hput := Dict.entries_put_of_not_mem none fun hmem => hkey ((s.mem_keys_iff key).mp hmem)
      obtain ⟨added, hentries, hadded⟩ := ih (s.put key none)
      rw [hput, List.append_assoc] at hentries
      refine ⟨(key, none) :: added, hentries, fun e he => ?_⟩
      rcases List.mem_cons.mp he with rfl | he
      · exact List.mem_cons_self
      · exact List.mem_cons_of_mem key (hadded e he)

/-- A key that is only expected has no values. -/
theorem join_get?_expectKeys (s : Section V) (keys : List String) (key : String) :
    ((expectKeys s keys).get? key).join = (s.get? key).join := by
  rw [get?_expectKeys]
  cases s.get? key with
  | none => split <;> rfl
  | some values => rfl

/-! ## Documents -/

theorem get?_eq_sectionOf (d : Document V) (title : String) :
    d.get? title = if title ∈ d.keys then some (d.sectionOf title) else none := by
  simp only [Dict.mem_keys_iff, sectionOf]
  cases d.get? title <;> rfl

theorem sectionOf_put (d : Document V) (title other : String) (s : Section V) :
    sectionOf (d.put title s) other = if other = title then s else d.sectionOf other := by
  unfold sectionOf
  rw [Dict.get?_put]
  split <;> rfl

theorem mem_keys_put (d : Document V) (title other : String) (s : Section V) :
    other ∈ (d.put title s).keys ↔ other ∈ d.keys ∨ other = title := by
  rw [Dict.mem_keys_iff, Dict.get?_put, Dict.mem_keys_iff]
  split <;> simp [*]

theorem sectionOf_applyTemplate (d : Document V) (template : Document W) (title : String) :
    (d.applyTemplate template).sectionOf title =
      expectKeys (d.sectionOf title) (expectedKeys template title) := by
  unfold applyTemplate expectedKeys
  induction template.entries generalizing d with
  | nil => rfl
  | cons e es ih =>
    rw [List.foldl_cons, ih, sectionOf_put, List.filter_cons]
    by_cases htitle : title = e.1
    · rw [if_pos htitle, if_pos (decide_eq_true htitle.symm), List.flatMap_cons, expectKeys_append,
        htitle]
    · rw [if_neg htitle, if_neg (by simpa using Ne.symm htitle)]

theorem mem_keys_applyTemplate (d : Document V) (template : Document W) (title : String) :
    title ∈ (d.applyTemplate template).keys ↔ title ∈ d.keys ∨ title ∈ template.keys := by
  unfold applyTemplate
  show _ ↔ title ∈ d.keys ∨ title ∈ template.entries.map Prod.fst
  induction template.entries generalizing d with
  | nil => simp
  | cons e es ih => rw [List.foldl_cons, ih, mem_keys_put, List.map_cons, List.mem_cons, or_assoc]

/-- An entry of the document stays, and a key that only the template has is there without values. -/
theorem get?_sectionOf_applyTemplate (d : Document V) (template : Document W) (title key : String) :
    ((d.applyTemplate template).sectionOf title).get? key =
      ((d.sectionOf title).get? key).or
        (if key ∈ expectedKeys template title then some none else none) := by
  rw [sectionOf_applyTemplate, get?_expectKeys]

/-- The keys expected under a title are those of its section. -/
theorem expectedKeys_eq (template : Document W) (title : String) :
    expectedKeys template title = (template.sectionOf title).keys := by
  obtain ⟨entries, hnodup⟩ := template
  unfold expectedKeys sectionOf Dict.get?
  dsimp only
  induction entries with
  | nil => rfl
  | cons e es ih =>
    rw [List.map_cons, List.nodup_cons] at hnodup
    rw [List.filter_cons, Dict.lookup_cons_if]
    by_cases htitle : title = e.1
    · have hnone : es.filter (fun e' => decide (e'.1 = title)) = [] := by
        refine List.filter_eq_nil_iff.mpr fun e' he' hsame => hnodup.1 ?_
        rw [← htitle, ← of_decide_eq_true hsame]
        exact List.mem_map_of_mem he'
      rw [if_pos (decide_eq_true htitle.symm), hnone, if_pos htitle]
      exact List.append_nil _
    · rw [if_neg (by simpa using Ne.symm htitle), if_neg htitle]
      exact ih hnodup.2

/-- Two templates can be applied in either order. -/
theorem sameMap_applyTemplate_comm {W' : Type} (d : Document V) (t : Document W) (t' : Document W') :
    SameMap ((d.applyTemplate t).applyTemplate t') ((d.applyTemplate t').applyTemplate t) where
  titles title := by
    simp only [mem_keys_applyTemplate]
    rw [or_assoc, or_assoc, or_comm (a := title ∈ t.keys)]
  entries title key := by
    simp only [get?_sectionOf_applyTemplate]
    rw [Option.or_assoc, Option.or_assoc]
    congr 1
    split <;> split <;> rfl

/-- A template that was applied adds nothing more. -/
theorem applyTemplate_idem (d : Document V) (template : Document W) :
    (d.applyTemplate template).applyTemplate template = d.applyTemplate template := by
  refine applyTemplate_eq_self fun e he => ⟨(d.applyTemplate template).sectionOf e.1, ?_, ?_⟩
  · rw [get?_eq_sectionOf, if_pos]
    exact (mem_keys_applyTemplate d template e.1).mpr (.inr (List.mem_map_of_mem he))
  · intro key hkey
    have hexpected : key ∈ expectedKeys template e.1 :=
      List.mem_flatMap.mpr ⟨e, List.mem_filter.mpr ⟨he, decide_eq_true rfl⟩, hkey⟩
    rw [get?_sectionOf_applyTemplate, if_pos hexpected, Option.isSome_or, Option.isSome_some,
      Bool.or_true]

end Pivotal.Task.Document
