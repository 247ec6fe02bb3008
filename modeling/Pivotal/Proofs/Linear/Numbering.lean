import Mathlib.Data.List.FinRange
import Mathlib.Data.List.Forall2
import Mathlib.Data.List.Perm.Basic
import Pivotal.Proofs.Linear.Rows

/-!
# Which sections give coefficients

The rows of a `system` section stand under keys in any order.  They give a grid exactly when the
entries of the section, its other keys apart, can be put in the order of the rows of the grid
(`coefficients_eq_ok_iff`): reading the rows is pointwise, and sorting finds that order again, since
the numbers of the rows differ (`sortRows_eq_numberedRows_iff`).  So the order of the entries does
not matter, and a section is accepted exactly when its row keys carry the numbers from zero on, each
once, and its rows are numbers and equally long (`HasRows`, `coefficients_exact`).
-/

namespace Pivotal.Linear

open Pivotal.Task (Section Value)

/-- The key of row `i`: `row`, and a text that reads as `i`. -/
def IsRowKey (key : String) (i : Nat) : Prop :=
  ∃ number, key.toList = "row".toList ++ number ∧ Decimal.readNat? number = some i

theorem rowIndex?_eq_some_iff {key : String} {i : Nat} : rowIndex? key = some i ↔ IsRowKey key i := by
  unfold rowIndex? IsRowKey
  constructor
  · intro h
    split at h
    · next number hkey => exact ⟨number, hkey, h⟩
    · cases h
  · rintro ⟨number, hkey, h⟩
    rw [hkey]
    exact h

theorem IsRowKey.unique {key : String} {i j : Nat} (hi : IsRowKey key i) (hj : IsRowKey key j) :
    i = j := by
  rw [← rowIndex?_eq_some_iff] at hi hj
  rw [hi] at hj
  exact Option.some.inj hj

theorem IsRowKey.not_mem_otherKeys {key : String} {i : Nat} (h : IsRowKey key i) :
    key ∉ otherKeys := by
  obtain ⟨number, hkey, -⟩ := h
  have hhead : key.toList.head? = some 'r' := by rw [hkey]; rfl
  intro hmem
  simp only [otherKeys, List.mem_cons, List.not_mem_nil, or_false] at hmem
  rcases hmem with rfl | rfl
  · exact absurd hhead (by decide)
  · exact absurd hhead (by decide)

/-- The values of a key; a key without an entry of its own has none. -/
def rowValues (s : Section Value) (key : String) : List Value := (s.get? key).join.getD []

/-- The section describes `m` rows of `c` numbers. -/
structure HasRows (s : Section Value) (m c : Nat) : Prop where
  rows_pos : 1 ≤ m
  cols_pos : 1 ≤ c
  /-- Every key but the other two names a row. -/
  named : ∀ key ∈ s.keys, key ∉ otherKeys → ∃ i < m, IsRowKey key i
  /-- Every row has one key. -/
  once : ∀ i < m, ∃! key, key ∈ s.keys ∧ IsRowKey key i
  numeric : ∀ key ∈ s.keys, key ∉ otherKeys → ∀ v ∈ rowValues s key, v.asComplex?.isSome = true
  length : ∀ key ∈ s.keys, key ∉ otherKeys → (rowValues s key).length = c

/-- The entry in row `i` and column `j` of the grid is the `j`-th value under the key of row `i`. -/
def HoldsRows (s : Section Value) (g : Grid Complex) : Prop :=
  ∀ key ∈ s.keys, ∀ (i : Fin g.rows) (j : Fin g.cols), IsRowKey key i →
    (rowValues s key)[j.val]?.bind Value.asComplex? = some ((g.entries.get i).get j)

/-! ## Reading rows one by one -/

theorem mapM_eq_ok_iff {α β ε : Type} {f : α → Except ε β} {xs : List α} {ys : List β} :
    xs.mapM f = .ok ys ↔ List.Forall₂ (fun x y => f x = .ok y) xs ys := by
  induction xs generalizing ys with
  | nil =>
    rw [List.forall₂_nil_left_iff]
    exact ⟨fun h => (Except.ok.inj h).symm, fun h => congrArg Except.ok h.symm⟩
  | cons x xs ih =>
    rw [List.mapM_cons, List.forall₂_cons_left_iff]
    constructor
    · intro h
      cases hx : f x with
      | error e => rw [hx] at h; cases h
      | ok y =>
        cases hxs : xs.mapM f with
        | error e => rw [hx, hxs] at h; cases h
        | ok zs =>
          rw [hx, hxs] at h
          exact ⟨y, zs, rfl, ih.mp hxs, (Except.ok.inj h).symm⟩
    · rintro ⟨y, zs, hx, hxs, rfl⟩
      rw [hx, ih.mpr hxs]
      rfl

theorem complexValues_eq_ok_iff {key : String} {values : List Value} {zs : List Complex} :
    complexValues key values = .ok zs ↔ values.map Value.asComplex? = zs.map some := by
  unfold complexValues
  rw [mapM_eq_ok_iff, ← List.forall₂_eq_eq_eq, List.forall₂_map_left_iff,
    List.forall₂_map_right_iff]
  constructor
  · intro h
    refine h.imp fun v z hz => ?_
    cases hv : v.asComplex? with
    | none => rw [hv] at hz; cases hz
    | some w => rw [hv] at hz; exact congrArg some (Except.ok.inj hz)
  · intro h
    refine h.imp fun v z hz => ?_
    rw [hz]

/-- The entry is that of the row. -/
def IsRow (e : String × Option (List Value)) (r : NumberedRow) : Prop :=
  IsRowKey e.1 r.index ∧ (e.2.getD []).map Value.asComplex? = r.values.map some

theorem numberedRow_eq_ok_iff {e : String × Option (List Value)} {r : NumberedRow} :
    numberedRow e.1 e.2 = .ok r ↔ IsRow e r := by
  unfold numberedRow IsRow
  constructor
  · intro h
    split at h
    · cases h
    · next i hi =>
      cases hzs : complexValues e.1 (e.2.getD []) with
      | error f => rw [hzs] at h; cases h
      | ok zs =>
        rw [hzs] at h
        cases h
        exact ⟨rowIndex?_eq_some_iff.mp hi, complexValues_eq_ok_iff.mp hzs⟩
  · rintro ⟨hkey, hvalues⟩
    rw [rowIndex?_eq_some_iff.mpr hkey]
    dsimp only
    rw [complexValues_eq_ok_iff.mpr hvalues]
    rfl

/-- The entries of a section, without its other keys. -/
def rowEntries (s : Section Value) : List (String × Option (List Value)) :=
  s.entries.filter fun e => !otherKeys.contains e.1

theorem mem_rowEntries {s : Section Value} {e : String × Option (List Value)} :
    e ∈ rowEntries s ↔ e ∈ s.entries ∧ e.1 ∉ otherKeys := by
  unfold rowEntries
  rw [List.mem_filter]
  simp

theorem sectionRows_eq_ok_iff {s : Section Value} {rows : List NumberedRow} :
    sectionRows s = .ok rows ↔ List.Forall₂ IsRow (rowEntries s) rows := by
  unfold sectionRows
  rw [mapM_eq_ok_iff]
  simp only [numberedRow_eq_ok_iff]
  rfl

/-! ## Sorting finds the order of the rows -/

theorem mem_numberedRows {m c : Nat} {t : Table Complex m c} {r : NumberedRow} :
    r ∈ numberedRows t ↔ ∃ i : Fin m, r = ⟨i, (t.get i).toList⟩ := by
  simp [numberedRows, eq_comm]

theorem sortRows_eq_numberedRows_iff {rows : List NumberedRow} {m c : Nat} {t : Table Complex m c} :
    sortRows rows = numberedRows t ↔ rows.Perm (numberedRows t) := by
  have hsorted : ∀ rs : List NumberedRow, (sortRows rs).Pairwise fun r r' => r.index ≤ r'.index := by
    intro rs
    have h := @List.pairwise_mergeSort _ (fun r r' : NumberedRow => decide (r.index ≤ r'.index))
      (fun r₁ r₂ r₃ h₁ h₂ => by simp only [decide_eq_true_eq] at *; omega)
      (fun r₁ r₂ => by simp only [Bool.or_eq_true, decide_eq_true_eq]; omega) rs
    exact h.imp fun hle => of_decide_eq_true hle
  constructor
  · intro h
    rw [← h]
    exact (List.mergeSort_perm rows _).symm
  · intro h
    have hperm : (sortRows rows).Perm (numberedRows t) := (List.mergeSort_perm rows _).trans h
    refine hperm.eq_of_pairwise ?_ (hsorted rows) ?_
    · -- in the table the number of a row determines it
      intro r r' hr hr' hle hge
      obtain ⟨i, rfl⟩ := mem_numberedRows.mp (hperm.mem_iff.mp hr)
      obtain ⟨j, rfl⟩ := mem_numberedRows.mp hr'
      have hij : i = j := Fin.ext (Nat.le_antisymm hle hge)
      rw [hij]
    · have h := hsorted (numberedRows t)
      rwa [sortRows_numberedRows] at h

/-- The rows of a grid that was made from rows are those rows. -/
theorem numberedRows_gridOfRows {rows : List NumberedRow} {cols : Nat}
    (hnumbers : rows.map (·.index) = List.range rows.length)
    (hcols : ∀ r ∈ rows, r.values.length = cols) :
    numberedRows (gridOfRows rows cols hcols).entries = rows := by
  unfold gridOfRows numberedRows
  dsimp only
  refine List.ext_getElem (by simp) fun i hi hi' => ?_
  have hindex : rows[i].index = i := by
    have h : (rows.map (·.index))[i]? = (List.range rows.length)[i]? := by rw [hnumbers]
    simpa [hi'] using h
  have hget : ∀ f : Fin rows.length → Vector Complex cols,
      (Vector.ofFn f).get ⟨i, hi'⟩ = f ⟨i, hi'⟩ := fun f => Vector.getElem_ofFn hi'
  rw [List.getElem_map, List.getElem_finRange]
  show NumberedRow.mk i (Vector.toList ((Vector.ofFn _).get ⟨i, hi'⟩)) =
    NumberedRow.mk rows[i].index rows[i].values
  rw [hget, hindex]
  rfl

/-- Rows in order give a grid exactly when they are its rows. -/
theorem gridOfSorted_eq_ok_iff {rows : List NumberedRow} {g : Grid Complex} :
    gridOfSorted rows = .ok g ↔ 0 < g.rows ∧ 0 < g.cols ∧ rows = numberedRows g.entries := by
  constructor
  · intro h
    unfold gridOfSorted at h
    split at h
    · cases h
    · next hnumbers =>
      rw [not_not] at hnumbers
      dsimp only at h
      split at h
      · cases h
      · next hcols =>
        split at h
        · cases h
        · next hfind =>
          cases h
          refine ⟨?_, Nat.pos_of_ne_zero hcols, (numberedRows_gridOfRows hnumbers _).symm⟩
          cases rows with
          | nil => exact absurd rfl hcols
          | cons r rows => exact Nat.succ_pos _
  · rintro ⟨hrows, hcols, rfl⟩
    exact gridOfSorted_numberedRows hrows hcols g.entries

/-! ## The order of the entries -/

/-- The entries of the section, put in a suitable order, are the rows of the table. -/
def InOrder (s : Section Value) {m c : Nat} (t : Table Complex m c) : Prop :=
  ∃ order : Fin m → String × Option (List Value),
    (rowEntries s).Perm (List.ofFn order) ∧ ∀ i, IsRow (order i) ⟨i, (t.get i).toList⟩

theorem forall₂_ofFn_iff {α β : Type} {R : α → β → Prop} {m : Nat} {f : Fin m → β} {xs : List α} :
    List.Forall₂ R xs (List.ofFn f) ↔
      ∃ order : Fin m → α, xs = List.ofFn order ∧ ∀ i, R (order i) (f i) := by
  constructor
  · intro h
    have hlength : xs.length = m := by rw [h.length_eq, List.length_ofFn]
    subst hlength
    refine ⟨xs.get, (List.ofFn_get xs).symm, fun i => ?_⟩
    have hget := (List.forall₂_iff_get.mp h).2 i i.isLt (by simp)
    simpa using hget
  · rintro ⟨order, rfl, h⟩
    rw [List.forall₂_iff_get]
    exact ⟨by simp, fun i hi hi' => by simpa using h ⟨i, by simpa using hi⟩⟩

/-- The coefficients of a section are the grid whose rows its entries are, in some order. -/
theorem coefficients_eq_ok_iff {s : Section Value} {g : Grid Complex} :
    coefficients s = .ok g ↔ 0 < g.rows ∧ 0 < g.cols ∧ InOrder s g.entries := by
  have hrows : coefficients s = .ok g ↔
      ∃ rows, sectionRows s = .ok rows ∧ gridOfSorted (sortRows rows) = .ok g := by
    unfold coefficients
    cases sectionRows s with
    | error f => simp [bind, Except.bind]
    | ok rows => simp [bind, Except.bind]
  have hcomp : (∃ rows, List.Forall₂ IsRow (rowEntries s) rows ∧ rows.Perm (numberedRows g.entries)) ↔
      ∃ es, (rowEntries s).Perm es ∧ List.Forall₂ IsRow es (numberedRows g.entries) := by
    have h := @List.forall₂_comp_perm_eq_perm_comp_forall₂ _ _ IsRow
    exact iff_of_eq (congrFun (congrFun h (rowEntries s)) (numberedRows g.entries))
  have horder : (∃ es, (rowEntries s).Perm es ∧ List.Forall₂ IsRow es (numberedRows g.entries)) ↔
      InOrder s g.entries := by
    unfold numberedRows InOrder
    simp only [← List.ofFn_eq_map, forall₂_ofFn_iff]
    constructor
    · rintro ⟨es, hperm, order, rfl, h⟩
      exact ⟨order, hperm, h⟩
    · rintro ⟨order, hperm, h⟩
      exact ⟨_, hperm, order, rfl, h⟩
  rw [hrows, ← horder, ← hcomp]
  simp only [sectionRows_eq_ok_iff, gridOfSorted_eq_ok_iff, sortRows_eq_numberedRows_iff]
  constructor
  · rintro ⟨rows, hentries, hpos, hcols, hperm⟩
    exact ⟨hpos, hcols, rows, hentries, hperm⟩
  · rintro ⟨hpos, hcols, rows, hentries, hperm⟩
    exact ⟨rows, hentries, hpos, hcols, hperm⟩

theorem InOrder.perm {s s' : Section Value} {m c : Nat} {t : Table Complex m c}
    (h : InOrder s t) (hperm : s.entries.Perm s'.entries) : InOrder s' t := by
  obtain ⟨order, horder, hrow⟩ := h
  exact ⟨order, (hperm.filter _).symm.trans horder, hrow⟩

/-- **The order of the entries does not matter.** -/
theorem toOption_coefficients_perm {s s' : Section Value} (h : s.entries.Perm s'.entries) :
    (coefficients s').toOption = (coefficients s).toOption := by
  have hiff : ∀ g, coefficients s' = .ok g ↔ coefficients s = .ok g := by
    intro g
    rw [coefficients_eq_ok_iff, coefficients_eq_ok_iff]
    constructor
    · rintro ⟨hrows, hcols, horder⟩
      exact ⟨hrows, hcols, horder.perm h.symm⟩
    · rintro ⟨hrows, hcols, horder⟩
      exact ⟨hrows, hcols, horder.perm h⟩
  cases hs : coefficients s with
  | ok g => rw [(hiff g).mpr hs]
  | error f =>
    cases hs' : coefficients s' with
    | ok g => rw [(hiff g).mp hs'] at hs; cases hs
    | error f' => rfl

/-! ## Rows by their keys -/

section Keys

variable {s : Section Value}

theorem rowValues_of_mem {e : String × Option (List Value)} (he : e ∈ s.entries) :
    rowValues s e.1 = e.2.getD [] := by
  unfold rowValues
  rw [Dict.get?_of_mem he]
  rfl

/-- The keys of the section name the rows of the table, and their values are those rows. -/
structure Keyed (s : Section Value) {m c : Nat} (t : Table Complex m c) : Prop where
  row : ∀ key ∈ s.keys, key ∉ otherKeys → ∃ i : Fin m, IsRowKey key i ∧
    (rowValues s key).map Value.asComplex? = (t.get i).toList.map some
  exists_key : ∀ i : Fin m, ∃ key ∈ s.keys, IsRowKey key i
  unique_key : ∀ i : Fin m, ∀ key ∈ s.keys, ∀ key' ∈ s.keys, IsRowKey key i → IsRowKey key' i →
    key = key'

theorem InOrder.keyed {m c : Nat} {t : Table Complex m c} (h : InOrder s t) : Keyed s t := by
  obtain ⟨order, hperm, hrow⟩ := h
  have hmem : ∀ i, order i ∈ s.entries := fun i =>
    (mem_rowEntries.mp (hperm.mem_iff.mpr (List.mem_ofFn.mpr ⟨i, rfl⟩))).1
  have hkey : ∀ i, (order i).1 ∈ s.keys := fun i => List.mem_map_of_mem (hmem i)
  have hplace : ∀ key ∈ s.keys, key ∉ otherKeys → ∃ i, (order i).1 = key := by
    intro key hkey hother
    obtain ⟨e, he, rfl⟩ := List.mem_map.mp hkey
    obtain ⟨i, hi⟩ := List.mem_ofFn.mp (hperm.mem_iff.mp (mem_rowEntries.mpr ⟨he, hother⟩))
    exact ⟨i, by rw [hi]⟩
  constructor
  case row =>
    intro key hkey hother
    obtain ⟨i, rfl⟩ := hplace key hkey hother
    refine ⟨i, (hrow i).1, ?_⟩
    rw [rowValues_of_mem (hmem i)]
    exact (hrow i).2
  case exists_key => exact fun i => ⟨(order i).1, hkey i, (hrow i).1⟩
  case unique_key =>
    have hunique : ∀ i : Fin m, ∀ key ∈ s.keys, IsRowKey key i → key = (order i).1 := by
      intro i key hkey hi
      obtain ⟨j, rfl⟩ := hplace key hkey hi.not_mem_otherKeys
      rw [Fin.ext (hi.unique (hrow j).1)]
    intro i key hkey key' hkey' hi hi'
    rw [hunique i key hkey hi, hunique i key' hkey' hi']

theorem Keyed.inOrder {m c : Nat} {t : Table Complex m c} (h : Keyed s t) : InOrder s t := by
  choose key hkey hi using h.exists_key
  have hentry : ∀ i, ∃ e ∈ s.entries, e.1 = key i := fun i => List.mem_map.mp (hkey i)
  choose order horder hname using hentry
  have hrowKey : ∀ i : Fin m, IsRowKey (order i).1 i := fun i => by
    rw [hname]
    exact hi i
  have horderKey : ∀ i, (order i).1 ∈ s.keys := fun i => List.mem_map_of_mem (horder i)
  refine ⟨order, ?_, fun i => ⟨hrowKey i, ?_⟩⟩
  · have hentries : (rowEntries s).Nodup := (List.Nodup.of_map Prod.fst s.nodup).filter _
    have hinjective : Function.Injective order := fun i j hij =>
      Fin.ext ((hrowKey i).unique (hij ▸ hrowKey j))
    rw [List.perm_ext_iff_of_nodup hentries (List.nodup_ofFn.mpr hinjective)]
    intro e
    rw [mem_rowEntries, List.mem_ofFn]
    constructor
    · rintro ⟨he, hother⟩
      have hmem : e.1 ∈ s.keys := List.mem_map_of_mem he
      obtain ⟨i, hei, -⟩ := h.row e.1 hmem hother
      have hsame := h.unique_key i (order i).1 (horderKey i) e.1 hmem (hrowKey i) hei
      exact ⟨i, List.inj_on_of_nodup_map s.nodup (horder i) he hsame⟩
    · rintro ⟨i, rfl⟩
      exact ⟨horder i, (hrowKey i).not_mem_otherKeys⟩
  · obtain ⟨j, hj, hvalues⟩ := h.row (order i).1 (horderKey i) (hrowKey i).not_mem_otherKeys
    have hij : j = i := Fin.ext (hj.unique (hrowKey i))
    rw [rowValues_of_mem (horder i), hij] at hvalues
    exact hvalues

end Keys

section Tables

variable {s : Section Value} {m c : Nat}

theorem Keyed.hasRows {t : Table Complex m c} (h : Keyed s t) (hm : 0 < m) (hc : 0 < c) :
    HasRows s m c where
  rows_pos := hm
  cols_pos := hc
  named key hkey hother := by
    obtain ⟨i, hi, -⟩ := h.row key hkey hother
    exact ⟨i, i.isLt, hi⟩
  once i hi := by
    obtain ⟨key, hkey, hrow⟩ := h.exists_key ⟨i, hi⟩
    refine ⟨key, ⟨hkey, hrow⟩, ?_⟩
    rintro key' ⟨hkey', hrow'⟩
    exact h.unique_key ⟨i, hi⟩ key' hkey' key hkey hrow' hrow
  numeric key hkey hother v hv := by
    obtain ⟨i, -, hvalues⟩ := h.row key hkey hother
    have hmem : v.asComplex? ∈ (t.get i).toList.map some := by
      rw [← hvalues]
      exact List.mem_map_of_mem hv
    obtain ⟨z, -, hz⟩ := List.mem_map.mp hmem
    rw [← hz]
    rfl
  length key hkey hother := by
    obtain ⟨i, -, hvalues⟩ := h.row key hkey hother
    have hlength := congrArg List.length hvalues
    rwa [List.length_map, List.length_map, Vector.length_toList] at hlength

theorem Keyed.holdsRows {g : Grid Complex} (h : Keyed s g.entries) : HoldsRows s g := by
  intro key hkey i j hi
  obtain ⟨i', hi', hvalues⟩ := h.row key hkey hi.not_mem_otherKeys
  obtain rfl : i' = i := Fin.ext (hi'.unique hi)
  have hentry : (g.entries.get i').toList[j.val]? = some ((g.entries.get i').get j) := by
    rw [Vector.getElem?_toList]
    exact Vector.getElem?_eq_getElem j.isLt
  have hplace : ((rowValues s key).map Value.asComplex?)[j.val]? =
      some (some ((g.entries.get i').get j)) := by
    rw [hvalues, List.getElem?_map, hentry]
    rfl
  rw [List.getElem?_map] at hplace
  obtain ⟨v, hv, hz⟩ := Option.map_eq_some_iff.mp hplace
  rw [hv]
  exact hz

/-- A section that has rows has a table of them. -/
theorem HasRows.exists_keyed (h : HasRows s m c) : ∃ t : Table Complex m c, Keyed s t := by
  choose key hkey using fun i : Fin m => (h.once i i.isLt).exists
  have hunique : ∀ (i : Fin m) key', key' ∈ s.keys → IsRowKey key' i → key' = key i :=
    fun i key' hkey' hi => (h.once i i.isLt).unique ⟨hkey', hi⟩ (hkey i)
  have hlength : ∀ i, ((rowValues s (key i)).map fun v => v.asComplex?.getD 0).length = c := by
    intro i
    rw [List.length_map, h.length (key i) (hkey i).1 (hkey i).2.not_mem_otherKeys]
  refine ⟨Vector.ofFn fun i => ⟨((rowValues s (key i)).map fun v => v.asComplex?.getD 0).toArray,
    hlength i⟩, ?_, fun i => ⟨key i, hkey i⟩, ?_⟩
  · intro key' hkey' hother
    obtain ⟨i, hi, hrow⟩ := h.named key' hkey' hother
    obtain rfl := hunique ⟨i, hi⟩ key' hkey' hrow
    have hrows : (Vector.ofFn fun i => (⟨((rowValues s (key i)).map fun v =>
        v.asComplex?.getD 0).toArray, hlength i⟩ : Vector Complex c)).get ⟨i, hi⟩ = _ :=
      Vector.getElem_ofFn hi
    refine ⟨⟨i, hi⟩, hrow, ?_⟩
    rw [hrows]
    show _ = List.map some (List.map _ _)
    rw [List.map_map]
    refine List.map_congr_left fun v hv => ?_
    obtain ⟨z, hz⟩ := Option.isSome_iff_exists.mp (h.numeric _ hkey' hother v hv)
    rw [Function.comp_apply, hz]
    rfl
  · intro i key₁ hkey₁ key₂ hkey₂ hi₁ hi₂
    rw [hunique i key₁ hkey₁ hi₁, hunique i key₂ hkey₂ hi₂]

end Tables

/-- **A section gives coefficients exactly when it has rows, whatever the order of its entries.**  The
grid has the dimensions of the rows, and their values in its places. -/
theorem coefficients_exact (s : Section Value) :
    (∀ s' : Section Value, s.entries.Perm s'.entries →
      (coefficients s').toOption = (coefficients s).toOption) ∧
    (∀ g, coefficients s = .ok g → HasRows s g.rows g.cols ∧ HoldsRows s g) ∧
    ∀ m c, HasRows s m c → ∃ g, coefficients s = .ok g ∧ g.rows = m ∧ g.cols = c := by
  refine ⟨fun s' h => toOption_coefficients_perm h, fun g hg => ?_, fun m c h => ?_⟩
  · obtain ⟨hrows, hcols, horder⟩ := coefficients_eq_ok_iff.mp hg
    have hkeyed := horder.keyed
    exact ⟨hkeyed.hasRows hrows hcols, hkeyed.holdsRows⟩
  · obtain ⟨t, ht⟩ := h.exists_keyed
    exact ⟨⟨m, c, t⟩, coefficients_eq_ok_iff.mpr ⟨h.rows_pos, h.cols_pos, ht.inOrder⟩, rfl, rfl⟩

/-- Rows out of order, under keys with a sign and with zeros before their numbers. -/
def unsortedRows : Section Value :=
  .mk [("row+1", some [.whole 3]), ("unknowns", none), ("row00", some [.complex ⟨0, 1⟩])]

theorem coefficients_exact_unsorted :
    HasRows unsortedRows 2 1 ∧ ∃ g, coefficients unsortedRows = .ok g ∧ g.rows = 2 ∧ g.cols = 1 ∧
      HoldsRows unsortedRows g := by
  have hnumber : ∀ key ∈ unsortedRows.keys, key ∉ otherKeys →
      (key = "row+1" ∧ rowIndex? key = some 1) ∨ (key = "row00" ∧ rowIndex? key = some 0) := by
    decide
  have hrows : HasRows unsortedRows 2 1 := by
    constructor
    case rows_pos => decide
    case cols_pos => decide
    case named =>
      intro key hkey hother
      rcases hnumber key hkey hother with ⟨-, hi⟩ | ⟨-, hi⟩
      · exact ⟨1, by decide, rowIndex?_eq_some_iff.mp hi⟩
      · exact ⟨0, by decide, rowIndex?_eq_some_iff.mp hi⟩
    case once =>
      have hzero : ∀ key ∈ unsortedRows.keys, rowIndex? key = some 0 → key = "row00" := by decide
      have hone : ∀ key ∈ unsortedRows.keys, rowIndex? key = some 1 → key = "row+1" := by decide
      intro i hi
      simp only [← rowIndex?_eq_some_iff]
      obtain rfl | rfl : i = 0 ∨ i = 1 := by omega
      · exact ⟨"row00", by decide, fun key hkey => hzero key hkey.1 hkey.2⟩
      · exact ⟨"row+1", by decide, fun key hkey => hone key hkey.1 hkey.2⟩
    case numeric =>
      intro key hkey hother v hv
      rcases hnumber key hkey hother with ⟨rfl, -⟩ | ⟨rfl, -⟩
      · cases List.mem_singleton.mp hv
        rfl
      · cases List.mem_singleton.mp hv
        rfl
    case length =>
      intro key hkey hother
      rcases hnumber key hkey hother with ⟨rfl, -⟩ | ⟨rfl, -⟩
      · rfl
      · rfl
  obtain ⟨-, hholds, hexists⟩ := coefficients_exact unsortedRows
  obtain ⟨g, hg, hm, hc⟩ := hexists 2 1 hrows
  exact ⟨hrows, g, hg, hm, hc, (hholds g hg).2⟩

end Pivotal.Linear
