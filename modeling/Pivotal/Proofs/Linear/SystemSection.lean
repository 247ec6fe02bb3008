import Pivotal.Linear.Basic
import Pivotal.Proofs.Linear.Rows
import Pivotal.Proofs.Task.Merging
import Pivotal.Proofs.Task.Numbers
import Pivotal.Proofs.Task.Writing

/-!
# Equations as sections

`systemSection` writes the names of the unknowns, the coefficients and the free terms as a section of a
task.  Read as values, a number is the one read from its text (`readBack`), which is equal to the
number written (`asComplex?_tokenValue`); the coefficients and the free terms are those numbers
(`coefficients_systemSection`, `freeTerms_systemSection`).
-/

namespace Pivotal.Linear

open Pivotal.Task (WrittenSection Value isToken isWord tokenValue)

variable {n : Nat}

/-! ## Numbers -/

def numberText (z : Complex) : String := String.ofList z.pretty

theorem isToken_numbers {zs : List Complex} (hzs : ∀ z ∈ zs, z.isFinite = true) :
    ∀ t ∈ zs.map numberText, isToken t = true := by
  intro t ht
  obtain ⟨z, hz, rfl⟩ := List.mem_map.mp ht
  exact Complex.isToken_pretty (hzs z hz)

/-- The number of a value, zero if it is none. -/
def numberOf (v : Value) : Complex := v.asComplex?.getD 0

/-- The number read from the text of a number. -/
def readBack (z : Complex) : Complex := numberOf (tokenValue (numberText z))

theorem asComplex?_tokenValue {z : Complex} (hz : z.isFinite = true) :
    (tokenValue (numberText z)).asComplex? = some (readBack z) ∧ (readBack z).equals z = true := by
  obtain ⟨w, hw, heq⟩ := Complex.asComplex?_classify_pretty hz
  have htoken : (tokenValue (numberText z)).asComplex? = some w := by
    unfold tokenValue numberText
    rw [String.toList_ofList]
    exact hw
  have hback : readBack z = w := by
    unfold readBack numberOf
    rw [htoken]
    rfl
  exact ⟨by rw [htoken, hback], by rw [hback]; exact heq⟩

theorem complexValues_numbers (key : String) {zs : List Complex}
    (hzs : ∀ z ∈ zs, z.isFinite = true) :
    complexValues key ((zs.map numberText).map tokenValue) = .ok (zs.map readBack) := by
  have hvalues : ∀ v ∈ (zs.map numberText).map tokenValue, v.asComplex? = some (numberOf v) := by
    rw [List.forall_mem_map, List.forall_mem_map]
    intro z hz
    exact (asComplex?_tokenValue (hzs z hz)).1
  have hback : (numberOf ∘ tokenValue) ∘ numberText = readBack := by
    funext z
    rw [readBack, Function.comp, Function.comp]
  rw [complexValues_eq_ok key hvalues, List.map_map, List.map_map, hback]

/-! ## The section -/

/-- The `system` section: the names, the rows under their keys and the free terms. -/
def systemSection (names : Vector String n) (a : Table Complex n n) (b : Vector Complex n) :
    WrittenSection String :=
  ⟨"system", ("unknowns", names.toList) ::
    ((List.finRange n).map (fun i : Fin n => (rowKey i, (a.get i).toList.map numberText)) ++
      [("free_terms", b.toList.map numberText)])⟩

section System

variable {names : Vector String n} {a : Table Complex n n} {b : Vector Complex n}

theorem keys_systemSection : (systemSection names a b).pairs.map Prod.fst =
    "unknowns" :: ((List.finRange n).map (fun i : Fin n => rowKey i) ++ ["free_terms"]) := by
  simp [systemSection, Function.comp_def]

theorem nodup_keys_systemSection (hsize : n ≤ 2 ^ 64) :
    ((systemSection names a b).pairs.map Prod.fst).Nodup := by
  have hother : ∀ key ∈ otherKeys, key ∉ (List.finRange n).map (fun i : Fin n => rowKey i) := by
    intro key hkey hmem
    obtain ⟨i, -, rfl⟩ := List.mem_map.mp hmem
    exact rowKey_not_mem_otherKeys i hkey
  have hrows : ((List.finRange n).map (fun i : Fin n => rowKey i)).Nodup := by
    refine List.Pairwise.map _ (fun i j hij heq => ?_) (List.nodup_finRange n)
    have hi := rowIndex?_rowKey (Nat.lt_of_lt_of_le i.isLt hsize)
    rw [heq, rowIndex?_rowKey (Nat.lt_of_lt_of_le j.isLt hsize)] at hi
    exact hij (Fin.ext (Option.some.inj hi).symm)
  have hterms := hother "free_terms" (by decide)
  have hnames := hother "unknowns" (by decide)
  rw [keys_systemSection]
  refine List.nodup_cons.mpr ⟨?_, List.nodup_append.mpr ⟨hrows, by decide, ?_⟩⟩
  · rw [List.mem_append, not_or]
    exact ⟨hnames, by decide⟩
  · intro key hkey other hother heq
    rw [List.mem_singleton.mp hother] at heq
    exact hterms (heq ▸ hkey)

/-- The pairs of the section: the names, a row or the free terms. -/
theorem systemSection_cases {p : String × List String} (hp : p ∈ (systemSection names a b).pairs) :
    p = ("unknowns", names.toList) ∨
    (∃ i : Fin n, p = (rowKey i, (a.get i).toList.map numberText)) ∨
    p = ("free_terms", b.toList.map numberText) := by
  simp only [systemSection, List.mem_cons, List.mem_append, List.mem_map, List.not_mem_nil,
    or_false] at hp
  rcases hp with rfl | ⟨i, -, rfl⟩ | rfl
  · exact .inl rfl
  · exact .inr (.inl ⟨i, rfl⟩)
  · exact .inr (.inr rfl)

theorem isWritable_systemSection (hn : 0 < n) (hnames : ∀ t ∈ names.toList, isToken t = true)
    (ha : ∀ i : Fin n, ∀ z ∈ (a.get i).toList, z.isFinite = true)
    (hb : ∀ z ∈ b.toList, z.isFinite = true) : Task.IsWritable (systemSection names a b) where
  title := (by decide : isWord "system" = true)
  keys p hp := by
    rcases systemSection_cases hp with rfl | ⟨i, rfl⟩ | rfl
    · exact (by decide : isWord "unknowns" = true)
    · exact isWord_rowKey i
    · exact (by decide : isWord "free_terms" = true)
  nonempty p hp := by
    have hlength : 0 < p.2.length := by
      rcases systemSection_cases hp with rfl | ⟨i, rfl⟩ | rfl
      · simpa using hn
      · simpa using hn
      · simpa using hn
    exact List.length_pos_iff.mp hlength
  tokens p hp := by
    rcases systemSection_cases hp with rfl | ⟨i, rfl⟩ | rfl
    · exact hnames
    · exact isToken_numbers (ha i)
    · exact isToken_numbers hb

theorem entries_systemSection {V : Type} (f : String → V) (hsize : n ≤ 2 ^ 64) :
    ((systemSection names a b).map f).toSection.entries =
      ("unknowns", some (names.toList.map f)) ::
        ((List.finRange n).map (fun i : Fin n =>
          (rowKey i, some (((a.get i).toList.map numberText).map f))) ++
        [("free_terms", some ((b.toList.map numberText).map f))]) := by
  have hkeys : (((systemSection names a b).map f).pairs.map Prod.fst).Nodup := by
    rw [Task.map_fst_pairs_map]
    exact nodup_keys_systemSection hsize
  rw [Task.entries_toSection hkeys]
  unfold Task.WrittenSection.map systemSection
  simp only [List.map_cons, List.map_append, List.map_nil, List.map_map, Function.comp_def]

theorem coefficients_systemSection (hn : 0 < n) (hsize : n ≤ 2 ^ 64)
    (ha : ∀ i : Fin n, ∀ z ∈ (a.get i).toList, z.isFinite = true) :
    coefficients ((systemSection names a b).map tokenValue).toSection =
      .ok ⟨n, n, a.map (Vector.map readBack)⟩ := by
  refine coefficients_of_rows hn hsize _ (entries_systemSection tokenValue hsize) fun i => ?_
  rw [complexValues_numbers _ (ha i), Vector.get_map, Vector.toList_map]

theorem get?_unknowns {V : Type} (f : String → V) (hsize : n ≤ 2 ^ 64) :
    ((systemSection names a b).map f).toSection.get? "unknowns" =
      some (some (names.toList.map f)) := by
  apply Dict.get?_of_mem
  rw [entries_systemSection _ hsize]
  exact List.mem_cons_self

theorem get?_freeTerms (hsize : n ≤ 2 ^ 64) :
    ((systemSection names a b).map tokenValue).toSection.get? "free_terms" =
      some (some ((b.toList.map numberText).map tokenValue)) := by
  apply Dict.get?_of_mem
  rw [entries_systemSection _ hsize]
  simp

theorem freeTerms_systemSection (hsize : n ≤ 2 ^ 64) (hb : ∀ z ∈ b.toList, z.isFinite = true) :
    LinearSystem.freeTerms ((systemSection names a b).map tokenValue).toSection =
      .ok (b.map readBack).toList := by
  unfold LinearSystem.freeTerms
  rw [get?_freeTerms hsize]
  show complexValues "free_terms" _ = _
  rw [complexValues_numbers _ hb, Vector.toList_map]

end System

end Pivotal.Linear
