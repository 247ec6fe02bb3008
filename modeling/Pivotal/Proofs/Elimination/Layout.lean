import Pivotal.Proofs.Elimination.Indexed
import Pivotal.Proofs.Elimination.Orders

/-!
# A tableau as plain arrays

`Tableau.buffers` lays a tableau out as plain arrays.  On such a layout every checked access at a
place of the tableau succeeds and gives what the tableau has there, and every checked write or
exchange leads to the layout of the tableau with that change:

    t.buffers.entry? i j = some (t.entry i j)                                  (entry?_buffers)
    t.buffers.swapRows? i j = some (t.swapRows i j).buffers                    (swapRows?_buffers)

The loops that only read, over the active places, are no different: `identityAt?_buffers`,
`bestRow?_buffers` and `writeSolution?_buffers`.
-/

namespace Pivotal.Elimination

variable {α : Type u} {n : Nat}

/-! ## Arrays -/

section Arrays

variable {β : Type v}

theorem toArray_getElem? (v : Vector β n) (i : Fin n) : v.toArray[i.val]? = some (v.get i) := by
  rw [Vector.getElem?_toArray, Vector.getElem?_eq_getElem i.isLt]
  rfl

theorem set?_toArray (v : Vector β n) (i : Fin n) (x : β) :
    set? v.toArray i x = some (put v i x).toArray := by
  unfold set?
  rw [dif_pos (by rw [Vector.size_toArray]; exact i.isLt)]
  rfl

theorem swap?_toArray (v : Vector β n) (i j : Fin n) :
    swap? v.toArray i j = some (v.swap i j i.isLt j.isLt).toArray := by
  unfold swap?
  rw [dif_pos (by rw [Vector.size_toArray]; exact ⟨i.isLt, j.isLt⟩)]
  rfl

/-- A loop with checked steps over places, none of which fails. -/
theorem foldlM_map_val {σ : Type w} (view : σ → β) {f : σ → Fin n → σ} {g : β → Nat → Option β}
    (hstep : ∀ s k, g (view s) k.val = some (view (f s k))) (ks : List (Fin n)) (s : σ) :
    (ks.map Fin.val).foldlM g (view s) = some (view (ks.foldl f s)) := by
  induction ks generalizing s with
  | nil => rfl
  | cons k ks ih =>
    rw [List.map_cons, List.foldlM_cons, hstep]
    exact ih (f s k)

end Arrays

/-- A span within `n` places lists the places in it. -/
theorem span_eq (lo : Nat) {hi : Nat} (h : hi ≤ n) :
    span lo hi =
      ((List.finRange n).filter fun k => lo ≤ k.val && k.val < hi).map Fin.val := by
  have hleft : (span lo hi).Pairwise (· < ·) := List.pairwise_lt_range'
  have hright : (((List.finRange n).filter fun k => lo ≤ k.val && k.val < hi).map
      Fin.val).Pairwise (· < ·) :=
    List.pairwise_map.mpr ((List.pairwise_lt_finRange n).filter _)
  refine List.Perm.eq_of_pairwise (fun i j _ _ hij hji => absurd hij (lt_asymm hji)) hleft hright ?_
  refine (List.perm_ext_iff_of_nodup hleft.nodup hright.nodup).mpr fun k => ?_
  simp only [span, List.mem_range'_1, List.mem_map, List.mem_filter, List.mem_finRange, true_and,
    Bool.and_eq_true, decide_eq_true_eq]
  constructor
  · intro hk
    have hk' : k < hi := by omega
    exact ⟨⟨k, by omega⟩, ⟨hk.1, hk'⟩, rfl⟩
  · rintro ⟨j, ⟨hlo, hhi⟩, rfl⟩
    exact ⟨hlo, by omega⟩

theorem span_below (i : Fin n) :
    span 0 i = ((List.finRange n).filter (· < i)).map Fin.val := by
  rw [span_eq 0 i.isLt.le]
  refine congrArg _ (List.filter_congr fun k _ => ?_)
  simp

namespace Tableau

theorem span_active (t : Tableau α n) (lo : Nat) :
    span lo t.active = (t.places lo).map Fin.val :=
  span_eq lo t.active_le

/-! ## Reading and writing -/

/-- The tableau laid out as plain arrays. -/
def buffers (t : Tableau α n) : Buffers α where
  coefficients := (t.coefficients.map Vector.toArray).toArray
  terms := t.terms.toArray
  rowOrder := (t.rowOrder.map Fin.val).toArray
  colOrder := (t.colOrder.map Fin.val).toArray
  active := t.active
  notices := t.notices

theorem rowOrder_buffers (t : Tableau α n) (i : Fin n) :
    t.buffers.rowOrder[i.val]? = some (t.rowAt i).val := by
  refine (toArray_getElem? _ i).trans ?_
  rw [Vector.get_map]
  rfl

theorem colOrder_buffers (t : Tableau α n) (j : Fin n) :
    t.buffers.colOrder[j.val]? = some (t.colAt j).val := by
  refine (toArray_getElem? _ j).trans ?_
  rw [Vector.get_map]
  rfl

theorem coefficients_buffers (t : Tableau α n) (r : Fin n) :
    t.buffers.coefficients[r.val]? = some (t.coefficients.get r).toArray := by
  refine (toArray_getElem? _ r).trans ?_
  rw [Vector.get_map]

theorem terms_buffers (t : Tableau α n) (r : Fin n) :
    t.buffers.terms[r.val]? = some (t.terms.get r) :=
  toArray_getElem? t.terms r

theorem entry?_buffers (t : Tableau α n) (i j : Fin n) :
    t.buffers.entry? i j = some (t.entry i j) := by
  unfold Buffers.entry?
  rw [rowOrder_buffers, Option.bind_some, colOrder_buffers, Option.bind_some, coefficients_buffers,
    Option.bind_some, toArray_getElem?]
  rfl

theorem term?_buffers (t : Tableau α n) (i : Fin n) : t.buffers.term? i = some (t.term i) := by
  unfold Buffers.term?
  rw [rowOrder_buffers, Option.bind_some, terms_buffers]
  rfl

/-- The tableau with another row in place `i`. -/
def withRow (t : Tableau α n) (i : Fin n) (row : Vector α n) : Tableau α n :=
  { t with coefficients := put t.coefficients (t.rowAt i) row }

/-- The tableau with another free term in place `i`. -/
def withTerm (t : Tableau α n) (i : Fin n) (x : α) : Tableau α n :=
  { t with terms := put t.terms (t.rowAt i) x }

theorem withRow_self (t : Tableau α n) (i : Fin n) :
    t.withRow i (t.coefficients.get (t.rowAt i)) = t := by
  have hsame : put t.coefficients (t.rowAt i) (t.coefficients.get (t.rowAt i)) =
      t.coefficients := by
    refine ext_get fun r => ?_
    rw [get_put]
    split
    · next hr => rw [hr]
    · rfl
  unfold withRow
  rw [hsame]

theorem get_withRow_self (t : Tableau α n) (i : Fin n) (row : Vector α n) :
    (t.withRow i row).coefficients.get (t.rowAt i) = row := by
  show (put t.coefficients (t.rowAt i) row).get (t.rowAt i) = row
  rw [get_put, if_pos rfl]

theorem entry_withRow_self (t : Tableau α n) (i j : Fin n) (row : Vector α n) :
    (t.withRow i row).entry i j = row.get (t.colAt j) :=
  congrArg (·.get (t.colAt j)) (t.get_withRow_self i row)

theorem entry_withRow_of_ne (t : Tableau α n) {i k : Fin n} (h : t.rowAt k ≠ t.rowAt i) (j : Fin n)
    (row : Vector α n) : (t.withRow i row).entry k j = t.entry k j := by
  show ((put t.coefficients (t.rowAt i) row).get (t.rowAt k)).get (t.colAt j) = _
  rw [get_put, if_neg h]
  rfl

/-- Writing into a row that has been replaced replaces it by what is written. -/
theorem setEntry?_buffers (t : Tableau α n) (i j : Fin n) (row : Vector α n) (x : α) :
    (t.withRow i row).buffers.setEntry? i j x =
      some (t.withRow i (put row (t.colAt j) x)).buffers := by
  have hplace : (t.withRow i row).rowAt i = t.rowAt i := rfl
  have hput : put ((t.withRow i row).coefficients.map Vector.toArray) (t.rowAt i)
      (put row (t.colAt j) x).toArray =
        (t.withRow i (put row (t.colAt j) x)).coefficients.map Vector.toArray := by
    refine ext_get fun r => ?_
    rw [get_put, Vector.get_map, Vector.get_map, withRow, withRow, get_put, get_put]
    by_cases hr : r = t.rowAt i
    · rw [if_pos hr, if_pos hr]
    · rw [if_neg hr, if_neg hr, if_neg hr]
  unfold Buffers.setEntry?
  rw [rowOrder_buffers, Option.bind_some, colOrder_buffers, Option.bind_some, coefficients_buffers,
    Option.bind_some, hplace, get_withRow_self, set?_toArray, Option.bind_some]
  show (set? ((t.withRow i row).coefficients.map Vector.toArray).toArray _ _).map _ = _
  rw [set?_toArray]
  refine congrArg some ?_
  show ({ (t.withRow i row).buffers with coefficients := (put _ _ _).toArray } : Buffers α) = _
  rw [show (t.withRow i row).colAt j = t.colAt j from rfl, hput]
  rfl

theorem setTerm?_buffers (t : Tableau α n) (i : Fin n) (x : α) :
    t.buffers.setTerm? i x = some (t.withTerm i x).buffers := by
  unfold Buffers.setTerm?
  rw [rowOrder_buffers, Option.bind_some]
  show (set? t.terms.toArray _ x).map _ = _
  rw [set?_toArray]
  rfl

theorem swap?_map_val (order : Vector (Fin n) n) (i j : Fin n) :
    swap? (order.map Fin.val).toArray i j =
      some ((order.swap i j i.isLt j.isLt).map Fin.val).toArray := by
  have hswap : (order.map Fin.val).swap i j i.isLt j.isLt =
      (order.swap i j i.isLt j.isLt).map Fin.val := by
    refine ext_get fun k => ?_
    rw [get_swap, Vector.get_map, Vector.get_map, get_swap]
  rw [swap?_toArray, hswap]

theorem swapRows?_buffers (t : Tableau α n) (i j : Fin n) :
    t.buffers.swapRows? i j = some (t.swapRows i j).buffers := by
  show (swap? (t.rowOrder.map Fin.val).toArray _ _).map _ = _
  rw [swap?_map_val]
  rfl

theorem swapCols?_buffers (t : Tableau α n) (i j : Fin n) :
    t.buffers.swapCols? i j = some (t.swapCols i j).buffers := by
  show (swap? (t.colOrder.map Fin.val).toArray _ _).map _ = _
  rw [swap?_map_val]
  rfl

/-! ## Loops that only read -/

theorem column?_buffers (t : Tableau α n) (col : Fin n) :
    t.buffers.coefficients.toList.mapM (·[col.val]?) =
      some (t.coefficients.toList.map (·.get col)) := by
  have hentry : (fun row : Array α => row[col.val]?) ∘ Vector.toArray =
      fun row : Vector α n => some (row.get col) := funext fun row => toArray_getElem? row col
  show (t.coefficients.map Vector.toArray).toList.mapM _ = _
  rw [Vector.toList_map, List.mapM_map, hentry]
  exact List.mapM_pure

theorem isIdentity?_buffers [Pivoting α] (t : Tableau α n) (row col : Fin n) :
    t.buffers.isIdentity? row col =
      some (isIdentity t.coefficients (t.terms.get row) row col) := by
  have hcol : (t.coefficients.toList.map (·.get col)).all isZero =
      t.coefficients.all fun r => isZero (r.get col) := by
    rw [List.all_map]
    exact Vector.all_toList
  unfold Buffers.isIdentity? isIdentity
  rw [terms_buffers, Option.bind_some, coefficients_buffers, Option.bind_some, column?_buffers,
    Option.map_some, hcol, Vector.all_toArray]
  cases isZero (t.terms.get row) with
  | false => rfl
  | true =>
    cases (t.coefficients.get row).all isZero with
    | false => rfl
    | true => rfl

theorem identityAt?_buffers [Pivoting α] (t : Tableau α n) (i : Fin n) :
    t.buffers.identityAt? i = some ((t.rowAt i).val, t.isIdentityAt i) := by
  unfold Buffers.identityAt?
  rw [rowOrder_buffers, Option.bind_some, colOrder_buffers, Option.bind_some, isIdentity?_buffers]
  rfl

/-- Keeping the best entry beside its place makes no difference. -/
theorem bestRow?_buffers [Pivoting α] (t : Tableau α n) (i : Fin n) :
    t.buffers.bestRow? i = some (t.bestRow i).val := by
  unfold Buffers.bestRow? bestRow
  rw [entry?_buffers, Option.bind_some]
  rw [show t.buffers.active = t.active from rfl, span_active]
  have hloop := foldlM_map_val (fun best : Fin n => (best.val, t.entry best i))
    (f := fun best j => if outweighs (t.entry j i) (t.entry best i) then j else best)
    (g := fun best j => (t.buffers.entry? j i).map fun y =>
      if outweighs y best.2 then (j, y) else best)
    (fun best j => by
      dsimp only
      rw [entry?_buffers, Option.map_some]
      split <;> rfl)
    (t.places (i.val + 1)) i
  rw [hloop]
  rfl

theorem scattered?_buffers [Zero α] (t : Tableau α n) :
    t.buffers.scattered? = some t.scatter.toArray := by
  have hsize : Array.replicate t.buffers.rowOrder.size (0 : α) =
      (Vector.replicate n 0).toArray := by
    rw [Vector.toArray_replicate]
    exact congrArg (Array.replicate · 0) (Vector.size_toArray _)
  unfold Buffers.scattered? scatter
  rw [hsize, show t.buffers.active = t.active from rfl, span_active]
  refine foldlM_map_val Vector.toArray (fun x k => ?_) (t.places 0) (Vector.replicate n 0)
  rw [colOrder_buffers, Option.bind_some, term?_buffers, Option.bind_some, set?_toArray]

/-- The tableau with the solution in place of the free terms. -/
def withSolution [Zero α] (t : Tableau α n) : Tableau α n := { t with terms := t.scatter }

theorem writeSolution?_buffers [Zero α] (t : Tableau α n) :
    t.buffers.writeSolution? = some t.withSolution.buffers := by
  have hsize : t.scatter.toArray.size = t.buffers.terms.size :=
    (Vector.size_toArray _).trans (Vector.size_toArray _).symm
  unfold Buffers.writeSolution?
  rw [scattered?_buffers, Option.bind_some, if_pos hsize]
  rfl

theorem buffers_ofSystem (a : Table α n n) (b : Vector α n) :
    (ofSystem a b).buffers = Buffers.ofSystem a b := by
  have hrange : ((Vector.ofFn id : Vector (Fin n) n).map Fin.val).toArray = Array.range n := by
    refine Array.ext (by simp) fun k hk _ => ?_
    simp
  unfold buffers Buffers.ofSystem ofSystem
  rw [hrange]

end Tableau

end Pivotal.Elimination
