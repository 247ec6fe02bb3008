import Pivotal.Proofs.Linear.SolverSection
import Pivotal.Proofs.Linear.SystemSection

/-!
# Systems written as tasks

`taskText` writes a configuration, the names of the unknowns, the coefficients and the free terms as a
task.  Reading the task gives the system back: dimensions, names and configuration as they were, and
every number equal to the one written (`ofTask_taskText`).
-/

namespace Pivotal.Linear

open Pivotal.Task (WrittenSection Value Document isToken tokenValue)

variable {n : Nat}

/-- The task of a system, one key on each line. -/
def taskText (c : Config) (names : Vector String n) (a : Table Complex n n) (b : Vector Complex n) :
    String :=
  Task.writeSections [solverSection c, systemSection names a b]

/-- The document of a task, with `f` of its tokens. -/
def taskDocument {V : Type} (f : String → V) (c : Config) (names : Vector String n)
    (a : Table Complex n n) (b : Vector Complex n) : Document V :=
  Dict.putAll ∅ [("solver", ((solverSection c).map f).toSection),
    ("system", ((systemSection names a b).map f).toSection)]

/-! ## Reading the task -/

theorem new_eq_ok {c : Config} (hlevel : c.logLevel ∈ levelNames.map some) (t : Table Complex n n)
    (v : Vector Complex n) : LinearSystem.new ⟨n, n, t⟩ v.toArray c =
      .ok { coefficients := ⟨n, n, t⟩, terms := v.toArray, config := c,
            unknowns := (List.range v.toArray.size).map defaultName } := by
  obtain ⟨l, hl⟩ := level_eq_ok hlevel
  have hdimensions : dimensionFault? n n v.toArray.size = none := by simp [dimensionFault?]
  unfold LinearSystem.new
  simp only [hdimensions, hl]

theorem setUnknowns_eq_ok (s : LinearSystem) {names : List String}
    (h : names.length = s.terms.size) : s.setUnknowns names = .ok { s with unknowns := names } :=
  if_pos h

section Reading

variable {c : Config} {names : Vector String n} {a : Table Complex n n} {b : Vector Complex n}
  (hn : 0 < n) (hsize : n ≤ 2 ^ 64) (hlevel : c.logLevel ∈ levelNames.map some)
  (hnames : ∀ t ∈ names.toList, isToken t = true)
  (ha : ∀ i : Fin n, ∀ z ∈ (a.get i).toList, z.isFinite = true)
  (hb : ∀ z ∈ b.toList, z.isFinite = true)

include hn hlevel hnames ha hb in
theorem parse_taskText {V : Type} {value : Task.Reader V} {f : String → V}
    (hvalue : Task.ReadsTokens value f) :
    Document.parse value (taskText c names a b).toList = .ok (taskDocument f c names a b) := by
  have hsections : ∀ P : WrittenSection String → Prop, P (solverSection c) →
      P (systemSection names a b) → ∀ s ∈ [solverSection c, systemSection names a b], P s := by
    intro P h1 h2 s hs
    rw [List.mem_cons, List.mem_singleton] at hs
    rcases hs with rfl | rfl
    · exact h1
    · exact h2
  have hlayout := Task.isLayout_writeSections
    (hsections _ (isWritable_solverSection hlevel) (isWritable_systemSection hn hnames ha hb))
  exact Task.parse_layout_distinct hvalue (List.cons_ne_nil _ _)
    (hsections _ (List.cons_ne_nil _ _) (List.cons_ne_nil _ _)) hlayout
    (by decide : ["solver", "system"].Nodup)

include hsize

theorem applyTemplate_taskDocument :
    (taskDocument tokenValue c names a b).applyTemplate taskTemplate =
      taskDocument tokenValue c names a b := by
  apply Document.applyTemplate_eq_self
  intro e he
  have hentries : taskTemplate.entries = [("solver", Document.templateSection solverKeys),
      ("system", Document.templateSection ["free_terms", "unknowns"])] := rfl
  rw [hentries, List.mem_cons, List.mem_singleton] at he
  rcases he with rfl | rfl
  · refine ⟨((solverSection c).map tokenValue).toSection, rfl, fun key hkey => ?_⟩
    rw [← Dict.mem_keys_iff, Task.keys_toSection_map _ (nodup_keys_solverSection c),
      keys_solverSection]
    exact hkey
  · refine ⟨((systemSection names a b).map tokenValue).toSection, rfl, fun key hkey => ?_⟩
    have hkeys : key ∈ ["free_terms", "unknowns"] := hkey
    rw [List.mem_cons, List.mem_singleton] at hkeys
    rcases hkeys with rfl | rfl
    · rw [get?_freeTerms hsize]
      rfl
    · rw [get?_unknowns tokenValue hsize]
      rfl

include hn hlevel ha hb

/-- The document of the task states the system, with the names as values are shown. -/
theorem ofDocument_taskDocument : LinearSystem.ofDocument (taskDocument tokenValue c names a b) =
    .ok { coefficients := ⟨n, n, a.map (Vector.map readBack)⟩, terms := (b.map readBack).toArray,
          unknowns := (names.toList.map tokenValue).map Value.render, config := c } := by
  have hsolver : (taskDocument tokenValue c names a b).get? "solver" =
      some ((solverSection c).map tokenValue).toSection := rfl
  have hsystem : (taskDocument tokenValue c names a b).get? "system" =
      some ((systemSection names a b).map tokenValue).toSection := rfl
  have hterms : (b.map readBack).toList.toArray = (b.map readBack).toArray :=
    Array.toArray_toList
  unfold LinearSystem.ofDocument
  simp only [hsolver, hsystem, config_solverSection hlevel, coefficients_systemSection hn hsize ha,
    freeTerms_systemSection hsize hb, get?_unknowns tokenValue hsize, hterms, Except.mapError, bind,
    Except.bind, new_eq_ok hlevel, Option.join_some]
  exact setUnknowns_eq_ok _ (by simp)

end Reading

/-- **A system written as a task reads as the same system.**  A size is a machine word. -/
theorem ofTask_taskText (hn : 0 < n) (hsize : n ≤ 2 ^ 64) (c : Config)
    (hlevel : c.logLevel ∈ levelNames.map some) (names : Vector String n)
    (hnames : ∀ i : Fin n, isToken (names.get i) = true) (a : Table Complex n n)
    (ha : ∀ i j : Fin n, ((a.get i).get j).isFinite = true) (b : Vector Complex n)
    (hb : ∀ i : Fin n, (b.get i).isFinite = true) :
    ∃ (a' : Table Complex n n) (b' : Vector Complex n),
      LinearSystem.ofTask (taskText c names a b) =
        .ok { coefficients := ⟨n, n, a'⟩, terms := b'.toArray, unknowns := names.toList,
              config := c } ∧
      (∀ i j : Fin n, ((a'.get i).get j).equals ((a.get i).get j) = true) ∧
      ∀ i : Fin n, (b'.get i).equals (b.get i) = true := by
  have hnames' : ∀ t ∈ names.toList, isToken t = true := forall_mem_toList hnames
  have ha' : ∀ i : Fin n, ∀ z ∈ (a.get i).toList, z.isFinite = true := fun i =>
    forall_mem_toList (ha i)
  have hb' : ∀ z ∈ b.toList, z.isFinite = true := forall_mem_toList hb
  refine ⟨a.map (Vector.map readBack), b.map readBack, ?_, fun i j => ?_, fun i => ?_⟩
  · have hvalues : Document.parseValues (taskText c names a b) =
        .ok (taskDocument tokenValue c names a b) :=
      parse_taskText hn hlevel hnames' ha' hb' Task.readsTokens_readValue
    have htokens : Document.parseTokens (taskText c names a b) = .ok (taskDocument id c names a b) :=
      parse_taskText hn hlevel hnames' ha' hb' Task.readsTokens_readToken
    have hunknowns : (taskDocument id c names a b).values? "system" "unknowns" =
        some (names.toList.map id) := by
      show (((systemSection names a b).map id).toSection.get? "unknowns").join = _
      rw [get?_unknowns id hsize]
      rfl
    have hlength : names.toList.length = (b.map readBack).toArray.size := by simp
    unfold LinearSystem.ofTask
    rw [hvalues, htokens]
    simp only [Except.mapError, bind, Except.bind, applyTemplate_taskDocument hsize,
      ofDocument_taskDocument hn hsize hlevel ha' hb', hunknowns, List.map_id]
    rw [setUnknowns_eq_ok _ hlength]
  · have hentry : ((a.map (Vector.map readBack)).get i).get j = readBack ((a.get i).get j) := by
      rw [Vector.get_map, Vector.get_map]
    rw [hentry]
    exact (asComplex?_tokenValue (ha i j)).2
  · rw [Vector.get_map]
    exact (asComplex?_tokenValue (hb i)).2

/-- A negative zero, a number beyond the whole numbers of a word, the smallest number, and names that
read as a number and look like a comment. -/
theorem ofTask_taskText_corners :
    ∃ (a' : Table Complex 2 2) (b' : Vector Complex 2),
      LinearSystem.ofTask (taskText ⟨.symbolic, true, some "none", false⟩ #v["007", "x//y"]
        #v[#v[⟨-0.0, 0⟩, ⟨1e300, -0.1⟩], #v[⟨0, 5e-324⟩, ⟨3, 2.5⟩]] #v[⟨0, 0⟩, ⟨-7, 0⟩]) =
        .ok { coefficients := ⟨2, 2, a'⟩, terms := b'.toArray, unknowns := ["007", "x//y"],
              config := ⟨.symbolic, true, some "none", false⟩ } ∧
      (∀ i j : Fin 2, ((a'.get i).get j).equals (((#v[#v[⟨-0.0, 0⟩, ⟨1e300, -0.1⟩],
        #v[⟨0, 5e-324⟩, ⟨3, 2.5⟩]] : Table Complex 2 2).get i).get j) = true) ∧
      ∀ i : Fin 2, (b'.get i).equals ((#v[⟨0, 0⟩, ⟨-7, 0⟩] : Vector Complex 2).get i) = true :=
  ofTask_taskText (by decide) (by decide) _ (by decide) _ (by decide) _ (by decide +kernel) _
    (by decide +kernel)

end Pivotal.Linear
