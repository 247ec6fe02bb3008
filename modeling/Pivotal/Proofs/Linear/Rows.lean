import Mathlib.Data.List.FinRange
import Pivotal.Linear.Coefficients
import Pivotal.Proofs.Decimal.PlainText
import Pivotal.Proofs.Task.Layout

/-!
# Rows under their keys

A row key is a word that reads as the number of its row (`rowIndex?_rowKey`), so the keys of different
rows differ.  A `system` section that gives the rows of a table under their keys, in order and with
the names and the free terms around them, has the table as its coefficients
(`coefficients_of_rows`).
-/

namespace Pivotal.Linear

open Pivotal.Task (Section Value isWord)

/-- The key of a row. -/
def rowKey (k : Nat) : String := "row" ++ toString k

theorem toList_rowKey (k : Nat) :
    (rowKey k).toList = 'r' :: 'o' :: 'w' :: Decimal.digitsOf k := by
  unfold rowKey
  rw [String.toList_append, Nat.toString_eq_ofList_toDigits]
  exact congrArg (fun ds => 'r' :: 'o' :: 'w' :: ds) String.toList_ofList

theorem rowIndex?_rowKey {k : Nat} (hk : k < 2 ^ 64) : rowIndex? (rowKey k) = some k := by
  have hne : Decimal.digitsOf k ≠ [] := Nat.toDigits_ne_nil
  have hall : (Decimal.digitsOf k).all Char.isDigit = true :=
    List.all_eq_true.mpr fun c hc => Decimal.isDigit_of_mem_digitsOf hc
  have hdigits : Decimal.readDigits? (Decimal.digitsOf k) = some k := by
    rw [Decimal.readDigits?, if_pos ⟨hne, hall⟩, Decimal.digitsValue_digitsOf]
  have hplus : ∀ ds, Decimal.digitsOf k ≠ '+' :: ds := by
    intro ds h
    have hmem : '+' ∈ Decimal.digitsOf k := h ▸ List.mem_cons_self
    exact absurd (Decimal.isDigit_of_mem_digitsOf hmem) (by decide)
  unfold rowIndex?
  rw [toList_rowKey]
  show Decimal.readNat? (Decimal.digitsOf k) = some k
  unfold Decimal.readNat?
  split
  · next ds h => exact absurd h (hplus ds)
  · dsimp only
    rw [hdigits]
    exact if_pos hk

theorem isWord_rowKey (k : Nat) : isWord (rowKey k) = true := by
  unfold isWord
  rw [toList_rowKey]
  simp only [Bool.and_eq_true, List.all_cons]
  refine ⟨by decide, by decide, by decide, List.all_eq_true.mpr fun c hc => ?_⟩
  simp [Task.isWordChar, Char.isAlphanum, Decimal.isDigit_of_mem_digitsOf hc]

theorem rowKey_not_mem_otherKeys (k : Nat) : rowKey k ∉ otherKeys := by
  have hne : ∀ key : String, key.toList.head? ≠ some 'r' → rowKey k ≠ key := by
    rintro key hkey rfl
    rw [toList_rowKey] at hkey
    exact hkey rfl
  simp only [otherKeys, List.mem_cons, List.not_mem_nil, or_false, not_or]
  exact ⟨hne _ (by decide), hne _ (by decide)⟩

/-! ## Reading the rows -/

theorem mapM_eq_ok {α β ε : Type} {f : α → Except ε β} {g : α → β} {xs : List α}
    (h : ∀ x ∈ xs, f x = .ok (g x)) : xs.mapM f = .ok (xs.map g) := by
  induction xs with
  | nil => rfl
  | cons x xs ih =>
    rw [List.mapM_cons, h x List.mem_cons_self, ih fun y hy => h y (List.mem_cons_of_mem x hy)]
    rfl

/-- Values that are all numbers. -/
theorem complexValues_eq_ok {values : List Value} {g : Value → Complex} (key : String)
    (h : ∀ v ∈ values, v.asComplex? = some (g v)) :
    complexValues key values = .ok (values.map g) := by
  refine mapM_eq_ok fun v hv => ?_
  rw [h v hv]

/-- The grid of the rows of a table. -/
theorem gridOfRows_eq {rows : List NumberedRow} {n cols : Nat} (t : Table Complex n cols)
    (hlen : rows.length = n) (h : ∀ r ∈ rows, r.values.length = cols)
    (hrows : ∀ i : Fin n, ∀ hi : i.val < rows.length, (rows.get ⟨i, hi⟩).values = (t.get i).toList) :
    gridOfRows rows cols h = ⟨n, cols, t⟩ := by
  subst hlen
  unfold gridOfRows
  congr 1
  apply Vector.ext
  intro i hi
  rw [Vector.getElem_ofFn]
  apply Vector.toList_inj.mp
  exact hrows ⟨i, hi⟩ hi

/-- The rows of a table with their numbers. -/
def numberedRows {n cols : Nat} (t : Table Complex n cols) : List NumberedRow :=
  (List.finRange n).map fun i : Fin n => ⟨i, (t.get i).toList⟩

theorem sortRows_numberedRows {n cols : Nat} (t : Table Complex n cols) :
    sortRows (numberedRows t) = numberedRows t := by
  unfold sortRows numberedRows
  apply List.mergeSort_of_pairwise
  rw [List.pairwise_map]
  exact (List.pairwise_le_finRange n).imp fun h => decide_eq_true h

theorem gridOfSorted_numberedRows {n cols : Nat} (hn : 0 < n) (hcols : 0 < cols)
    (t : Table Complex n cols) : gridOfSorted (numberedRows t) = .ok ⟨n, cols, t⟩ := by
  have hlen : (numberedRows t).length = n := by simp [numberedRows]
  have hindex : (numberedRows t).map (·.index) = List.range (numberedRows t).length := by
    rw [hlen, numberedRows, List.map_map]
    exact List.map_coe_finRange_eq_range
  have hvalues : ∀ r ∈ numberedRows t, r.values.length = cols := by
    intro r hr
    obtain ⟨i, -, rfl⟩ := List.mem_map.mp hr
    exact Vector.length_toList
  have hhead : ((numberedRows t).head?.map (·.values.length)).getD 0 = cols := by
    cases hrows : numberedRows t with
    | nil =>
      rw [hrows] at hlen
      exact absurd hlen (Nat.ne_of_lt hn)
    | cons r rows => exact hvalues r (hrows ▸ List.mem_cons_self)
  unfold gridOfSorted
  rw [if_neg (not_not.mpr hindex)]
  simp only [hhead]
  rw [if_neg (Nat.ne_of_gt hcols)]
  split
  · next r hfind =>
    have hne := List.find?_some hfind
    rw [hhead, hvalues r (List.mem_of_find?_eq_some hfind)] at hne
    simp at hne
  · refine congrArg Except.ok (gridOfRows_eq t hlen _ fun i hi => ?_)
    simp [numberedRows]

theorem filter_otherKeys {V : Type} (rows : List (String × V)) (names terms : V)
    (hrows : ∀ e ∈ rows, e.1 ∉ otherKeys) :
    (("unknowns", names) :: (rows ++ [("free_terms", terms)])).filter
      (fun e => !otherKeys.contains e.1) = rows := by
  have hkept : rows.filter (fun e => !otherKeys.contains e.1) = rows := by
    rw [List.filter_eq_self]
    intro e he
    simp [hrows e he]
  have hnames : otherKeys.contains "unknowns" = true := by decide
  have hterms : otherKeys.contains "free_terms" = true := by decide
  simp only [List.filter_cons, List.filter_append, List.filter_nil, hnames, hterms, hkept,
    Bool.not_true, Bool.false_eq_true, if_false, List.append_nil]

/-- The coefficients of a section with the rows of a table. -/
theorem coefficients_of_rows {n : Nat} (hn : 0 < n) (hsize : n ≤ 2 ^ 64) (t : Table Complex n n)
    {s : Section Value} {values : Fin n → List Value} {names terms : Option (List Value)}
    (hs : s.entries = ("unknowns", names) ::
      ((List.finRange n).map (fun i : Fin n => (rowKey i, some (values i))) ++
        [("free_terms", terms)]))
    (h : ∀ i : Fin n, complexValues (rowKey i) (values i) = .ok (t.get i).toList) :
    coefficients s = .ok ⟨n, n, t⟩ := by
  have hrows : sectionRows s = .ok (numberedRows t) := by
    unfold sectionRows
    rw [hs, filter_otherKeys, List.mapM_map]
    · refine mapM_eq_ok fun i _ => ?_
      show numberedRow (rowKey i) (some (values i)) = _
      unfold numberedRow
      rw [rowIndex?_rowKey (Nat.lt_of_lt_of_le i.isLt hsize)]
      simp only [Option.getD_some, h i]
      rfl
    · intro e he
      obtain ⟨i, -, rfl⟩ := List.mem_map.mp he
      exact rowKey_not_mem_otherKeys i
  unfold coefficients
  rw [hrows]
  show gridOfSorted (sortRows (numberedRows t)) = _
  rw [sortRows_numberedRows, gridOfSorted_numberedRows hn hn]

end Pivotal.Linear
