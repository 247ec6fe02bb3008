import Pivotal.CommandLine
import Pivotal.Proofs.Elimination.Outcomes
import Pivotal.Proofs.Task.Classifying

/-!
# Building a system

Every way to build a system ends in `new`, perhaps with other names for the unknowns, as many as
there are free terms; so a system that was built is sound (`Built.fresh`).

A task is read twice, once for its values and once for its tokens, and the names of the unknowns
come from the second reading.  The two readings agree (`Document.parseValues_eq`), and a template
adds no values, so the second reading never refuses what the first accepted: `ofTask_eq` puts the
names into the system of the document, and `values_and_tokens_agree` says what that means.
-/

namespace Pivotal.Linear

open Pivotal.Task (Section Value Document tokenValue)

/-! ## The parts of a building step -/

theorem exists_of_bind_eq_ok {ε α β : Type} {x : Except ε α} {f : α → Except ε β} {y : β}
    (h : x >>= f = .ok y) : ∃ a, x = .ok a ∧ f a = .ok y := by
  cases x with
  | error e => cases h
  | ok a => exact ⟨a, rfl, h⟩

theorem dimensionFault?_eq_none {rows cols terms : Nat}
    (h : dimensionFault? rows cols terms = none) : rows = cols ∧ rows = terms := by
  unfold dimensionFault? at h
  split at h
  · cases h
  · next hcols =>
    split at h
    · cases h
    · next hterms => exact ⟨not_not.mp hcols, not_not.mp hterms⟩

namespace LinearSystem

/-- A new system has been checked, has the default names, and knows no solution. -/
theorem new_cases {a : Grid Complex} {b : Array Complex} {c : Config} {s : LinearSystem}
    (h : new a b c = .ok s) : HasSize b.size a b ∧ (∃ l, c.level = .ok l) ∧
      s = { coefficients := a, terms := b, config := c,
            unknowns := (List.range b.size).map defaultName } := by
  unfold new at h
  split at h
  · cases h
  · next hfault =>
    split at h
    · cases h
    · next l hlevel =>
      cases h
      obtain ⟨hcols, hterms⟩ := dimensionFault?_eq_none hfault
      exact ⟨⟨hterms, hcols.symm.trans hterms, rfl⟩, ⟨l, hlevel⟩, rfl⟩

/-- Renaming succeeds when there is a name for each unknown, and changes nothing else. -/
theorem setUnknowns_eq_ok_iff {s s' : LinearSystem} {names : List String} :
    s.setUnknowns names = .ok s' ↔
      names.length = s.terms.size ∧ s' = { s with unknowns := names } := by
  unfold setUnknowns
  split
  · next hlength =>
    constructor
    · intro h
      cases h
      exact ⟨hlength, rfl⟩
    · rintro ⟨-, rfl⟩
      rfl
  · next hlength =>
    constructor
    · intro h
      cases h
    · rintro ⟨h, -⟩
      exact absurd h hlength

/-- The system of a `system` section under a configuration. -/
def ofSystemSection (config : Config) (sec : Section Value) : Except Refusal LinearSystem := do
  let a ← (Linear.coefficients sec).mapError .invalid
  let b ← (freeTerms sec).mapError .invalid
  let system ← new a b.toArray config
  match (sec.get? "unknowns").join with
  | some names => system.setUnknowns (names.map Value.render)
  | none => .ok system

/-- A document that is accepted has a `system` section, and a configuration was found. -/
theorem exists_ofSystemSection {d : Document Value} {s : LinearSystem} (h : ofDocument d = .ok s) :
    ∃ config sec, d.get? "system" = some sec ∧ ofSystemSection config sec = .ok s := by
  unfold ofDocument at h
  dsimp only at h
  cases hsystem : d.get? "system" with
  | none =>
    rw [hsystem] at h
    cases hsolver : d.get? "solver" with
    | none => rw [hsolver] at h; cases h
    | some sec =>
      rw [hsolver] at h
      obtain ⟨config, -, h⟩ := exists_of_bind_eq_ok h
      cases h
  | some sec =>
    rw [hsystem] at h
    cases hsolver : d.get? "solver" with
    | none =>
      rw [hsolver] at h
      exact ⟨{}, sec, rfl, h⟩
    | some solver =>
      rw [hsolver] at h
      obtain ⟨config, -, h⟩ := exists_of_bind_eq_ok h
      exact ⟨config, sec, rfl, h⟩

/-- The system of a document is a new one, with the names that the document gives. -/
theorem ofDocument_cases {d : Document Value} {s : LinearSystem} (h : ofDocument d = .ok s) :
    ∃ a b c s₀, new a b c = .ok s₀ ∧
      match d.values? "system" "unknowns" with
      | some names => s₀.setUnknowns (names.map Value.render) = .ok s
      | none => s = s₀ := by
  obtain ⟨config, sec, hsec, h⟩ := exists_ofSystemSection h
  have hvalues : d.values? "system" "unknowns" = (sec.get? "unknowns").join := by
    rw [Document.values?, hsec]
    rfl
  unfold ofSystemSection at h
  obtain ⟨a, -, h⟩ := exists_of_bind_eq_ok h
  obtain ⟨b, -, h⟩ := exists_of_bind_eq_ok h
  obtain ⟨s₀, hnew, h⟩ := exists_of_bind_eq_ok h
  refine ⟨a, b.toArray, config, s₀, hnew, ?_⟩
  rw [hvalues]
  cases hnames : (sec.get? "unknowns").join with
  | none =>
    rw [hnames] at h
    exact (Except.ok.inj h).symm
  | some names =>
    rw [hnames] at h
    exact h

/-! ## Tasks -/

/-- The names that a document of tokens gives, and the default names if it gives none. -/
def givenNames (written : Document String) (count : Nat) : List String :=
  (written.values? "system" "unknowns").getD ((List.range count).map defaultName)

/-- Once the document is accepted there are as many names as unknowns. -/
theorem length_givenNames {written : Document String} {s : LinearSystem}
    (hs : ofDocument ((written.mapValues tokenValue).applyTemplate taskTemplate) = .ok s) :
    (givenNames written s.terms.size).length = s.terms.size := by
  obtain ⟨a, b, c, s₀, -, hnames⟩ := ofDocument_cases hs
  rw [Document.values?_applyTemplate, Document.values?_mapValues] at hnames
  unfold givenNames
  cases htokens : written.values? "system" "unknowns" with
  | none => simp
  | some names =>
    rw [htokens] at hnames
    obtain ⟨hlength, rfl⟩ := setUnknowns_eq_ok_iff.mp hnames
    rw [List.length_map, List.length_map] at hlength
    exact hlength

/-- Then the task is accepted too, and only the names may differ. -/
theorem ofTask_eq {text : String} {written : Document String} {s : LinearSystem}
    (hwritten : Document.parseTokens text = .ok written)
    (hs : ofDocument ((written.mapValues tokenValue).applyTemplate taskTemplate) = .ok s) :
    ofTask text = .ok { s with unknowns := givenNames written s.terms.size } := by
  have hvalues : Document.parseValues text = .ok (written.mapValues tokenValue) := by
    rw [Document.parseValues_eq, hwritten]
    rfl
  have hlength := length_givenNames hs
  unfold ofTask
  rw [hvalues, hwritten]
  simp only [Except.mapError, bind, Except.bind, hs]
  cases htokens : written.values? "system" "unknowns" with
  | none =>
    obtain ⟨a, b, c, s₀, hnew, hnames⟩ := ofDocument_cases hs
    rw [Document.values?_applyTemplate, Document.values?_mapValues, htokens] at hnames
    obtain rfl : s = s₀ := hnames
    obtain ⟨-, -, rfl⟩ := new_cases hnew
    rw [givenNames, htokens]
    rfl
  | some names =>
    rw [givenNames, htokens] at hlength ⊢
    exact setUnknowns_eq_ok_iff.mpr ⟨hlength, rfl⟩

theorem ofTask_cases {text : String} {s : LinearSystem} (h : ofTask text = .ok s) :
    ∃ written s₁, Document.parseTokens text = .ok written ∧
      ofDocument ((written.mapValues tokenValue).applyTemplate taskTemplate) = .ok s₁ ∧
      s = { s₁ with unknowns := givenNames written s₁.terms.size } := by
  have htask := h
  unfold ofTask at h
  rw [Document.parseValues_eq] at h
  cases hwritten : Document.parseTokens text with
  | error f => rw [hwritten] at h; cases h
  | ok written =>
    rw [hwritten] at h
    obtain ⟨d, hd, h⟩ := exists_of_bind_eq_ok h
    cases hd
    obtain ⟨s₁, hs₁, -⟩ := exists_of_bind_eq_ok h
    rw [ofTask_eq hwritten hs₁] at htask
    exact ⟨written, s₁, rfl, hs₁, (Except.ok.inj htask).symm⟩

end LinearSystem

/-- **The values and the tokens of a text agree.**  A text is refused for both with the same fault,
or the values are the classified tokens in the same places; so a task is accepted exactly when its
document is, and its unknowns are named by the tokens as they are written. -/
theorem values_and_tokens_agree (text : String) :
    Document.parseValues text = (Document.parseTokens text).map (Document.mapValues tokenValue) ∧
      ((∃ s, LinearSystem.ofTask text = .ok s) ↔ ∃ d s, Document.parseValues text = .ok d ∧
        LinearSystem.ofDocument (d.applyTemplate taskTemplate) = .ok s) ∧
      ∀ s, LinearSystem.ofTask text = .ok s → ∃ written, Document.parseTokens text = .ok written ∧
        s.unknowns = (written.values? "system" "unknowns").getD
          ((List.range s.terms.size).map defaultName) := by
  refine ⟨Document.parseValues_eq text, ⟨?_, ?_⟩, ?_⟩
  · rintro ⟨s, hs⟩
    obtain ⟨written, s₁, hwritten, hs₁, -⟩ := LinearSystem.ofTask_cases hs
    refine ⟨written.mapValues tokenValue, s₁, ?_, hs₁⟩
    rw [Document.parseValues_eq, hwritten]
    rfl
  · rintro ⟨d, s, hd, hs⟩
    rw [Document.parseValues_eq] at hd
    cases hwritten : Document.parseTokens text with
    | error f => rw [hwritten] at hd; cases hd
    | ok written =>
      rw [hwritten] at hd
      cases hd
      exact ⟨_, LinearSystem.ofTask_eq hwritten hs⟩
  · intro s hs
    obtain ⟨written, s₁, hwritten, -, rfl⟩ := LinearSystem.ofTask_cases hs
    exact ⟨written, hwritten, rfl⟩

/-! ## Systems that were built -/

/-- The system was built: from its parts, a document, a task, or a task file.  The files may change
with every access. -/
inductive Built : LinearSystem → Prop
  | parts {a : Grid Complex} {b : Array Complex} {c : Config} {s : LinearSystem}
      (h : LinearSystem.new a b c = .ok s) : Built s
  | document {d : Document Value} {s : LinearSystem} (h : LinearSystem.ofDocument d = .ok s) :
      Built s
  | task {text : String} {s : LinearSystem} (h : LinearSystem.ofTask text = .ok s) : Built s
  | taskFile {World : Type} {files : Files (StateM World)} {path : String} {before after : World}
      {s : LinearSystem}
      (h : (LinearSystem.ofTaskFile files path).run before = (.ok s, after)) : Built s

/-- The system of a task file is that of its text. -/
theorem ofTask_of_ofTaskFile {World : Type} {files : Files (StateM World)} {path : String}
    {before after : World} {s : LinearSystem}
    (h : (LinearSystem.ofTaskFile files path).run before = (.ok s, after)) :
    ∃ text, LinearSystem.ofTask text = .ok s := by
  unfold LinearSystem.ofTaskFile at h
  rw [StateT.run_bind] at h
  generalize (readTask files path).run before = read at h
  obtain ⟨r, w⟩ := read
  cases r with
  | error f => cases h
  | ok text => exact ⟨text, (Prod.mk.inj h).1⟩

/-- The dimensions fit, every unknown has a name, and the log level is a known one. -/
structure LinearSystem.Sound (s : LinearSystem) (n : Nat) : Prop where
  size : HasSize n s.coefficients s.terms
  names : s.unknowns.length = n
  level : ∃ l, s.config.level = .ok l

/-- The system is sound, and no solve has succeeded yet. -/
structure LinearSystem.Fresh (s : LinearSystem) : Prop where
  sound : s.Sound s.terms.size
  result : s.result = none
  residual : s.residual = none
  symbolicResult : s.symbolicResult = none

namespace LinearSystem

theorem fresh_of_new {a : Grid Complex} {b : Array Complex} {c : Config} {s : LinearSystem}
    (h : new a b c = .ok s) : s.Fresh := by
  obtain ⟨hsize, hlevel, rfl⟩ := new_cases h
  exact ⟨⟨hsize, by simp, hlevel⟩, rfl, rfl, rfl⟩

theorem Fresh.rename {s : LinearSystem} (h : s.Fresh) {names : List String}
    (hlength : names.length = s.terms.size) : Fresh { s with unknowns := names } :=
  ⟨⟨h.sound.size, hlength, h.sound.level⟩, h.result, h.residual, h.symbolicResult⟩

theorem fresh_of_ofDocument {d : Document Value} {s : LinearSystem} (h : ofDocument d = .ok s) :
    s.Fresh := by
  obtain ⟨a, b, c, s₀, hnew, hnames⟩ := ofDocument_cases h
  cases htokens : d.values? "system" "unknowns" with
  | none =>
    rw [htokens] at hnames
    obtain rfl : s = s₀ := hnames
    exact fresh_of_new hnew
  | some names =>
    rw [htokens] at hnames
    obtain ⟨hlength, rfl⟩ := setUnknowns_eq_ok_iff.mp hnames
    exact (fresh_of_new hnew).rename hlength

theorem fresh_of_ofTask {text : String} {s : LinearSystem} (h : ofTask text = .ok s) :
    s.Fresh := by
  obtain ⟨written, s₁, -, hs₁, rfl⟩ := ofTask_cases h
  exact (fresh_of_ofDocument hs₁).rename (length_givenNames hs₁)

end LinearSystem

/-- However a system was built, it is sound and unsolved. -/
theorem Built.fresh {s : LinearSystem} (h : Built s) : s.Fresh := by
  cases h with
  | parts h => exact LinearSystem.fresh_of_new h
  | document h => exact LinearSystem.fresh_of_ofDocument h
  | task h => exact LinearSystem.fresh_of_ofTask h
  | taskFile h =>
    obtain ⟨text, htext⟩ := ofTask_of_ofTaskFile h
    exact LinearSystem.fresh_of_ofTask htext

end Pivotal.Linear
