import Pivotal.Linear.Config
import Pivotal.Proofs.Task.Merging
import Pivotal.Proofs.Task.Writing
import Pivotal.Text.Lower

/-!
# Configurations as sections

`solverSection` writes a configuration as a section of a task, one value under each of its keys.  Read
as values the section is the configuration again (`config_solverSection`).
-/

namespace Pivotal.Linear

open Pivotal.Task (WrittenSection Value Section isToken isWord tokenValue)

/-- The names of the log levels. -/
def levelNames : List String := ["debug", "info", "warn", "error", "off", "none"]

def truthText (b : Bool) : String := if b then "true" else "false"

/-- The `solver` section of a configuration. -/
def solverSection (c : Config) : WrittenSection String :=
  ⟨"solver", [("method", [c.method.name]),
    ("ignore_identity_equations", [truthText c.ignoreIdentities]),
    ("loglevel", [c.logLevel.getD "info"]), ("log_to_file", [truthText c.logToFile])]⟩

theorem keys_solverSection (c : Config) : (solverSection c).pairs.map Prod.fst = solverKeys := rfl

theorem nodup_keys_solverSection (c : Config) : ((solverSection c).pairs.map Prod.fst).Nodup :=
  (by decide : solverKeys.Nodup)

theorem isWritable_solverSection {c : Config} (hlevel : c.logLevel ∈ levelNames.map some) :
    Task.IsWritable (solverSection c) where
  title := (by decide : isWord "solver" = true)
  keys p hp := by
    have hwords : ∀ key ∈ solverKeys, isWord key = true := by decide
    exact hwords p.1 (keys_solverSection c ▸ List.mem_map_of_mem hp)
  nonempty p hp := by
    simp only [solverSection, List.mem_cons, List.not_mem_nil, or_false] at hp
    rcases hp with rfl | rfl | rfl | rfl <;> exact List.cons_ne_nil _ _
  tokens p hp t ht := by
    have htruth : ∀ b, isToken (truthText b) = true := by decide
    have hmethod : ∀ m : Method, isToken m.name = true := by
      intro m
      cases m <;> decide
    have hlevels : ∀ level ∈ levelNames, isToken level = true := by decide
    obtain ⟨level, hmem, hlevel⟩ := List.mem_map.mp hlevel
    simp only [solverSection, ← hlevel, Option.getD_some, List.mem_cons, List.not_mem_nil,
      or_false] at hp
    rcases hp with rfl | rfl | rfl | rfl
    · rw [List.mem_singleton.mp ht]
      exact hmethod _
    · rw [List.mem_singleton.mp ht]
      exact htruth _
    · rw [List.mem_singleton.mp ht]
      exact hlevels level hmem
    · rw [List.mem_singleton.mp ht]
      exact htruth _

/-! ## Reading the section -/

section SingleValues

variable {s : Section Value} {key : String} {v : Value}

theorem singleValue?_of_get? (h : s.get? key = some (some [v])) :
    singleValue? s key = .ok (some v) := by
  unfold singleValue?
  rw [h]
  rfl

theorem methodValue?_of_get? {m : Method} (h : s.get? "method" = some (some [v]))
    (hm : Method.ofName? v.render = some m) : methodValue? s = .ok (some m) := by
  unfold methodValue?
  rw [singleValue?_of_get? h]
  simp only [bind, Except.bind, hm]
  rfl

theorem truthValue?_of_get? {b : Bool} (h : s.get? key = some (some [v]))
    (hb : v.asTruth? = some b) : truthValue? s key = .ok (some b) := by
  unfold truthValue?
  rw [singleValue?_of_get? h]
  simp only [bind, Except.bind, hb]
  rfl

end SingleValues

/-- A level name is read as a text, is in lower case and is known. -/
theorem levelNames_spec : ∀ level ∈ levelNames, (tokenValue level).render = level ∧
    Text.lower level = level ∧ (levelOfName level).isOk = true := by
  have hrender : ∀ level ∈ levelNames, (tokenValue level).render = level := by decide +kernel
  have hsmall : ∀ level ∈ levelNames, level.toList.all Text.isSmall = true := by decide
  have hknown : ∀ level ∈ levelNames, (levelOfName level).isOk = true := by decide
  intro level hmem
  exact ⟨hrender level hmem, Text.lower_of_isSmall (List.all_eq_true.mp (hsmall level hmem)),
    hknown level hmem⟩

theorem level_eq_ok {c : Config} (hlevel : c.logLevel ∈ levelNames.map some) :
    ∃ l, c.level = .ok l := by
  obtain ⟨level, hmem, hlevel⟩ := List.mem_map.mp hlevel
  obtain ⟨-, hlower, hknown⟩ := levelNames_spec level hmem
  unfold Config.level
  rw [← hlevel]
  simp only [hlower]
  cases hname : levelOfName level with
  | ok l => exact ⟨l, rfl⟩
  | error f =>
    rw [hname] at hknown
    cases hknown

theorem config_solverSection {c : Config} (hlevel : c.logLevel ∈ levelNames.map some) :
    Config.ofSection ((solverSection c).map tokenValue).toSection = .ok c := by
  obtain ⟨l, hl⟩ := level_eq_ok hlevel
  obtain ⟨level, hmem, hlevel⟩ := List.mem_map.mp hlevel
  obtain ⟨hrender, hlower, -⟩ := levelNames_spec level hmem
  have hmethod : ∀ m : Method, Method.ofName? (tokenValue m.name).render = some m := by
    intro m
    cases m <;> decide +kernel
  have htruth : ∀ b, (tokenValue (truthText b)).asTruth? = some b := by decide +kernel
  have hkeys : checkKeys ((solverSection c).map tokenValue).toSection "solver" solverKeys =
      .ok () := rfl
  have hmethodValue : methodValue? ((solverSection c).map tokenValue).toSection = .ok (some c.method) :=
    methodValue?_of_get? rfl (hmethod c.method)
  have hignore : truthValue? ((solverSection c).map tokenValue).toSection "ignore_identity_equations" =
      .ok (some c.ignoreIdentities) := truthValue?_of_get? rfl (htruth c.ignoreIdentities)
  have hname : singleValue? ((solverSection c).map tokenValue).toSection "loglevel" =
      .ok (some (tokenValue level)) := by
    apply singleValue?_of_get?
    unfold solverSection
    rw [← hlevel]
    rfl
  have hfile : truthValue? ((solverSection c).map tokenValue).toSection "log_to_file" =
      .ok (some c.logToFile) := truthValue?_of_get? rfl (htruth c.logToFile)
  obtain ⟨method, ignoreIdentities, logLevel, logToFile⟩ := c
  cases (hlevel : some level = logLevel)
  unfold Config.ofSection
  rw [hkeys, hmethodValue, hignore, hname, hfile]
  simp only [bind, Except.bind, Option.getD_some, hrender, hlower, hl]
  rfl

end Pivotal.Linear
