import Pivotal.Proofs.Linear.Building
import Pivotal.Proofs.Task.Templates

/-!
# The task template adds nothing

Whatever is read from a section reads a key that is only expected like one that is not there: the check
for unknown keys and the collection of the rows go through the entries, and the added ones are known
and no rows (`checkKeys_expectKeys`, `coefficients_expectKeys`); all other readers look at the values
of one key (`singleValue?_expectKeys`, `freeTerms_expectKeys`).  So a configuration and a system are
the same with the template and without it (`ofSection_expectKeys`, `ofSystemSection_expectKeys`), and a
document without a `system` section is refused either way.
-/

namespace Pivotal.Linear

open Pivotal.Task (Section Value Document)
open Pivotal.Task.Document (expectKeys exists_entries_expectKeys join_get?_expectKeys
  sectionOf_applyTemplate get?_eq_sectionOf mem_keys_applyTemplate)

/-! ## The solver section -/

section Solver

variable (s : Section Value)

/-- A key that is known may be expected. -/
theorem checkKeys_expectKeys {keys known : List String} (hkeys : ∀ key ∈ keys, key ∈ known)
    (title : String) : checkKeys (expectKeys s keys) title known = checkKeys s title known := by
  obtain ⟨added, hentries, hadded⟩ := exists_entries_expectKeys s keys
  have hknown : (added.map Prod.fst).find? (!known.contains ·) = none := by
    refine List.find?_eq_none.mpr fun key hkey => ?_
    obtain ⟨e, he, rfl⟩ := List.mem_map.mp hkey
    simpa using hkeys e.1 (hadded e he)
  unfold checkKeys Dict.keys
  rw [hentries, List.map_append, List.find?_append, hknown, Option.or_none]

theorem singleValue?_expectKeys (keys : List String) (key : String) :
    singleValue? (expectKeys s keys) key = singleValue? s key := by
  unfold singleValue?
  rw [join_get?_expectKeys]

theorem truthValue?_expectKeys (keys : List String) (key : String) :
    truthValue? (expectKeys s keys) key = truthValue? s key := by
  unfold truthValue?
  rw [singleValue?_expectKeys]

theorem methodValue?_expectKeys (keys : List String) :
    methodValue? (expectKeys s keys) = methodValue? s := by
  unfold methodValue?
  rw [singleValue?_expectKeys]

theorem ofSection_expectKeys {keys : List String} (hkeys : ∀ key ∈ keys, key ∈ solverKeys) :
    Config.ofSection (expectKeys s keys) = Config.ofSection s := by
  unfold Config.ofSection
  simp only [checkKeys_expectKeys s hkeys, methodValue?_expectKeys, truthValue?_expectKeys,
    singleValue?_expectKeys]

end Solver

/-- Nothing configured is the default. -/
theorem ofSection_empty : Config.ofSection ∅ = .ok {} := by
  decide +kernel

/-! ## The system section -/

section System

variable (s : Section Value) {keys : List String}

/-- A key that is no row may be expected. -/
theorem sectionRows_expectKeys (hkeys : ∀ key ∈ keys, key ∈ otherKeys) :
    sectionRows (expectKeys s keys) = sectionRows s := by
  obtain ⟨added, hentries, hadded⟩ := exists_entries_expectKeys s keys
  have hother : added.filter (fun e => !otherKeys.contains e.1) = [] := by
    refine List.filter_eq_nil_iff.mpr fun e he => ?_
    simpa using hkeys e.1 (hadded e he)
  unfold sectionRows
  rw [hentries, List.filter_append, hother, List.append_nil]

theorem coefficients_expectKeys (hkeys : ∀ key ∈ keys, key ∈ otherKeys) :
    coefficients (expectKeys s keys) = coefficients s := by
  unfold coefficients
  rw [sectionRows_expectKeys s hkeys]

theorem coefficients_empty : coefficients ∅ = .error .noCoefficients := by
  have hrows : sectionRows ∅ = .ok [] := rfl
  unfold coefficients
  rw [hrows]
  show gridOfSorted (sortRows []) = _
  rw [sortRows, List.mergeSort_nil]
  rfl

namespace LinearSystem

theorem freeTerms_expectKeys (keys : List String) :
    freeTerms (expectKeys s keys) = freeTerms s := by
  unfold freeTerms
  rw [join_get?_expectKeys]

theorem ofSystemSection_expectKeys (hkeys : ∀ key ∈ keys, key ∈ otherKeys) (config : Config) :
    ofSystemSection config (expectKeys s keys) = ofSystemSection config s := by
  unfold ofSystemSection
  rw [coefficients_expectKeys s hkeys, freeTerms_expectKeys, join_get?_expectKeys]

end LinearSystem

end System

/-! ## Documents -/

namespace LinearSystem

variable {d : Document Value}

/-- A missing `solver` section is an empty one. -/
theorem ofDocument_eq {sec : Section Value} (hsec : d.get? "system" = some sec) :
    ofDocument d = (Config.ofSection (d.sectionOf "solver")).mapError .invalid >>= fun config =>
      ofSystemSection config sec := by
  unfold ofDocument Document.sectionOf
  cases d.get? "solver" with
  | none =>
    rw [hsec, Option.getD_none, ofSection_empty]
    rfl
  | some solver =>
    rw [hsec]
    rfl

theorem ofDocument_of_missing (hsec : d.get? "system" = none) : ∃ f, ofDocument d = .error f := by
  cases h : ofDocument d with
  | error f => exact ⟨f, rfl⟩
  | ok s =>
    obtain ⟨config, sec, hsome, -⟩ := exists_ofSystemSection h
    rw [hsec] at hsome
    cases hsome

end LinearSystem

theorem sectionOf_taskTemplate (d : Document Value) (title : String) :
    (d.applyTemplate taskTemplate).sectionOf title =
      expectKeys (d.sectionOf title) (taskTemplate.sectionOf title).keys := by
  rw [sectionOf_applyTemplate, Document.expectedKeys_eq]

/-- The template gives every document a `system` section. -/
theorem get?_system_taskTemplate (d : Document Value) :
    (d.applyTemplate taskTemplate).get? "system" =
      some (expectKeys (d.sectionOf "system") otherKeys) := by
  rw [get?_eq_sectionOf, sectionOf_taskTemplate, if_pos]
  · rfl
  · exact (mem_keys_applyTemplate d taskTemplate "system").mpr (.inr (by decide))

theorem ofDocument_taskTemplate (d : Document Value) :
    LinearSystem.ofDocument (d.applyTemplate taskTemplate) =
      (Config.ofSection (d.sectionOf "solver")).mapError .invalid >>= fun config =>
        LinearSystem.ofSystemSection config (d.sectionOf "system") := by
  rw [LinearSystem.ofDocument_eq (get?_system_taskTemplate d), sectionOf_taskTemplate,
    ofSection_expectKeys _ (by decide)]
  simp only [LinearSystem.ofSystemSection_expectKeys _ (fun key hkey => hkey)]

/-- **The task template is transparent.**  It keeps the entries of a document and adds only its own
titles and keys, without values.  The system of the document is the same with it and without it, or
refused for the same reason; a document without a `system` section is refused either way.  Any two
templates can be applied in either order, and the same one twice like once. -/
theorem taskTemplate_transparent (d t t' : Document Value) :
    (∀ title, title ∈ (d.applyTemplate taskTemplate).keys ↔
      title ∈ d.keys ∨ title ∈ taskTemplate.keys) ∧
    (∀ title key, ((d.applyTemplate taskTemplate).sectionOf title).get? key =
      ((d.sectionOf title).get? key).or
        (if key ∈ (taskTemplate.sectionOf title).keys then some none else none)) ∧
    ((d.get? "system").isSome = true →
      LinearSystem.ofDocument (d.applyTemplate taskTemplate) = LinearSystem.ofDocument d) ∧
    (d.get? "system" = none → (∃ f, LinearSystem.ofDocument d = .error f) ∧
      ∃ f, LinearSystem.ofDocument (d.applyTemplate taskTemplate) = .error f) ∧
    Document.SameMap ((d.applyTemplate t).applyTemplate t') ((d.applyTemplate t').applyTemplate t) ∧
    (d.applyTemplate t).applyTemplate t = d.applyTemplate t := by
  refine ⟨mem_keys_applyTemplate d taskTemplate, fun title key => ?_, fun hsome => ?_, fun hnone => ?_,
    Document.sameMap_applyTemplate_comm d t t', Document.applyTemplate_idem d t⟩
  · rw [sectionOf_taskTemplate, Document.get?_expectKeys]
  · obtain ⟨sec, hsec⟩ := Option.isSome_iff_exists.mp hsome
    have hsection : d.sectionOf "system" = sec := by
      rw [Document.sectionOf, hsec]
      rfl
    rw [ofDocument_taskTemplate, LinearSystem.ofDocument_eq hsec, hsection]
  · refine ⟨LinearSystem.ofDocument_of_missing hnone, ?_⟩
    have hsection : d.sectionOf "system" = ∅ := by
      rw [Document.sectionOf, hnone]
      rfl
    rw [ofDocument_taskTemplate, hsection]
    cases Config.ofSection (d.sectionOf "solver") with
    | error f => exact ⟨_, rfl⟩
    | ok config =>
      refine ⟨.invalid .noCoefficients, ?_⟩
      show LinearSystem.ofSystemSection config ∅ = _
      rw [LinearSystem.ofSystemSection, coefficients_empty]
      rfl

/-- A task with one key of all, and a document without any section. -/
theorem taskTemplate_transparent_partial :
    (Document.applyTemplate (.mk [("system", .mk [("row0", some [Value.whole 2])])])
        taskTemplate).sectionOf "system" =
      .mk [("row0", some [Value.whole 2]), ("free_terms", none), ("unknowns", none)] ∧
    LinearSystem.ofDocument
        (Document.applyTemplate (.mk [("system", .mk [("row0", some [.whole 2])])]) taskTemplate) =
      LinearSystem.ofDocument (.mk [("system", .mk [("row0", some [.whole 2])])]) ∧
    ∃ f, LinearSystem.ofDocument (Document.applyTemplate ∅ taskTemplate) = .error f :=
  ⟨rfl, (taskTemplate_transparent _ ∅ ∅).2.2.1 rfl,
    ((taskTemplate_transparent ∅ ∅ ∅).2.2.2.1 rfl).2⟩

end Pivotal.Linear
