import Pivotal.Proofs.Elimination.Layout
import Pivotal.Proofs.Elimination.PivotChoice
import Pivotal.Proofs.Elimination.Refinement
import Pivotal.Proofs.Elimination.Retirement

/-!
# No index is ever out of range

A run on plain arrays checks every index it uses.  Here it is followed state by state: whatever it
assigns, the arrays are the layout of a tableau with the order it should have (`Follows`), and on a
layout no access fails.  So the run goes the way of the run on tableaus, whatever the scalars do and
however the comparisons come out, and the orders can be read off the states it goes through.

* until the elimination begins the invariant is `Ordered` (`Follows.retireIdentities`);
* from then on it is `Settled` (`Follows.step`, `Follows.substituteBack`);
* `Settled.supplied` says where each component of the answer comes from.
-/

namespace Pivotal.Elimination

open Tableau

variable {α : Type u} {n : Nat}

@[simp] theorem read_some {β : Type v} {γ : Type w} (x : β) (next : β → Except (Stop α) γ) :
    read (some x) next = next x :=
  rfl

/-! ## Trails of layouts -/

/-- The trail stands at `t`, and has gone through layouts of tableaus with `Inv` only. -/
structure Follows (Inv : Tableau α n → Prop) (trail : Trail α) (t : Tableau α n) : Prop where
  now : trail.now = t.buffers
  holds : Inv t
  past : ∀ m ∈ trail.past, ∃ t' : Tableau α n, m = t'.buffers ∧ Inv t'

/-- The run goes on, along a trail that stands at `t`. -/
def Leads (Inv : Tableau α n → Prop) (x : Except (Stop α) (Trail α)) (t : Tableau α n) : Prop :=
  ∃ trail, x = .ok trail ∧ Follows Inv trail t

variable {Inv : Tableau α n → Prop} {trail : Trail α} {t t' : Tableau α n}

theorem Leads.bind {x : Except (Stop α) (Trail α)} {f : Trail α → Except (Stop α) (Trail α)}
    (hx : Leads Inv x t) (hf : ∀ trail, Follows Inv trail t → Leads Inv (f trail) t') :
    Leads Inv (x >>= f) t' := by
  obtain ⟨trail, rfl, h⟩ := hx
  exact hf trail h

namespace Follows

theorem start (ht : Inv t) : Follows Inv ⟨[], t.buffers⟩ t :=
  ⟨rfl, ht, fun _ hm => nomatch hm⟩

theorem mem_states (h : Follows Inv trail t) {m : Buffers α} (hm : m ∈ trail.states) :
    ∃ t' : Tableau α n, m = t'.buffers ∧ Inv t' := by
  rcases List.mem_append.mp hm with hpast | hnow
  · exact h.past m hpast
  · rw [List.mem_singleton.mp hnow]
    exact ⟨t, h.now, h.holds⟩

theorem push (h : Follows Inv trail t) (ht' : Inv t') : Follows Inv (trail.push t'.buffers) t' :=
  ⟨rfl, ht', fun _ hm => h.mem_states hm⟩

theorem ok (h : Follows Inv trail t) : Leads Inv (.ok trail) t := ⟨trail, rfl, h⟩

theorem write (h : Follows Inv trail t) {m : Option (Buffers α)} (hm : m = some t'.buffers)
    (ht' : Inv t') : Leads Inv (trail.write m) t' := by
  rw [hm]
  exact (h.push ht').ok

/-- A loop over places.  `view` is the tableau that a state of the loop stands for. -/
theorem foldlM {σ : Type w} (view : σ → Tableau α n) {f : σ → Fin n → σ}
    {g : Trail α → Nat → Except (Stop α) (Trail α)} {ks : List (Fin n)}
    (hstep : ∀ k ∈ ks, ∀ s trail, Follows Inv trail (view s) →
      Leads Inv (g trail k) (view (f s k))) {s : σ} (h : Follows Inv trail (view s)) :
    Leads Inv ((ks.map Fin.val).foldlM g trail) (view (ks.foldl f s)) := by
  induction ks generalizing s trail with
  | nil => exact h.ok
  | cons k ks ih =>
    rw [List.map_cons, List.foldlM_cons]
    refine (hstep k List.mem_cons_self s trail h).bind fun trail' h' => ?_
    exact ih (fun k' hk' => hstep k' (List.mem_cons_of_mem k hk')) h'

section Reading

variable (h : Follows Inv trail t)
include h

theorem rowOrder (i : Fin n) : trail.now.rowOrder[i.val]? = some (t.rowAt i).val := by
  rw [h.now]
  exact rowOrder_buffers t i

theorem colOrder (j : Fin n) : trail.now.colOrder[j.val]? = some (t.colAt j).val := by
  rw [h.now]
  exact colOrder_buffers t j

theorem entry? (i j : Fin n) : trail.now.entry? i j = some (t.entry i j) := by
  rw [h.now]
  exact entry?_buffers t i j

theorem term? (i : Fin n) : trail.now.term? i = some (t.term i) := by
  rw [h.now]
  exact term?_buffers t i

theorem bestRow? [Pivoting α] (i : Fin n) : trail.now.bestRow? i = some (t.bestRow i).val := by
  rw [h.now]
  exact bestRow?_buffers t i

theorem span_places (lo : Nat) : span lo trail.now.active = (t.places lo).map Fin.val := by
  rw [h.now]
  exact span_active t lo

end Reading

/-! ## Identity equations -/

theorem retire (h : Follows Ordered trail t) {i : Nat} (hi : i < t.active) (row : Nat) :
    Leads Ordered (trail.retire i row) ((t.retire i hi).report (.identityRetired row)) := by
  have hle := t.active_le
  let place : Fin n := ⟨i, by omega⟩
  let last : Fin n := ⟨t.active - 1, by omega⟩
  -- Four states follow: the report, the exchange in either order, and the smaller active part.
  have hreported : Ordered (t.report (.identityRetired row)) := ⟨h.holds.rows, h.holds.cols⟩
  have hactive : trail.now.active = last.val + 1 := by
    rw [h.now]
    show t.active = t.active - 1 + 1
    omega
  unfold Trail.retire
  rw [hactive, h.now, t.retire_eq place last hi rfl]
  refine ((h.push hreported).write (swapRows?_buffers _ place last)
    (hreported.swapRows place last)).bind fun trail₁ h₁ => ?_
  rw [h₁.now]
  refine (h₁.write (swapCols?_buffers _ place last)
    (h₁.holds.swapCols place last)).bind fun trail₂ h₂ => ?_
  have hretired : Ordered
      { ((t.report (.identityRetired row)).swapRows place last).swapCols place last with
        active := t.active - 1
        active_le := (Nat.sub_le _ _).trans t.active_le } := ⟨h₂.holds.rows, h₂.holds.cols⟩
  rw [h₂.now]
  exact (h₂.push hretired).ok

theorem retireIdentities [Pivoting α] (h : Follows Ordered trail t) (i removed : Nat) :
    Leads Ordered (trail.retireIdentities i) (t.removeIdentities i removed).1 := by
  fun_induction Tableau.removeIdentities t i removed generalizing trail with
  | case1 t i removed hi place hid =>
    rename_i ih
    obtain ⟨trail', hretire, h'⟩ := h.retire hi (t.rowAt place)
    have hat : trail.now.identityAt? i = some ((t.rowAt place).val, true) := by
      rw [h.now, ← hid]
      exact identityAt?_buffers t place
    rw [Trail.retireIdentities_of_identity (by rw [h.now]; exact hi) hat hretire]
    exact ih h'
  | case2 t i removed hi place hid =>
    rename_i ih
    have hat : trail.now.identityAt? i = some ((t.rowAt place).val, false) := by
      rw [h.now, ← Bool.eq_false_iff.mpr hid]
      exact identityAt?_buffers t place
    rw [Trail.retireIdentities_of_other (by rw [h.now]; exact hi) hat]
    exact ih h
  | case3 t i removed hi =>
    rw [Trail.retireIdentities_of_end (by rw [h.now]; exact hi)]
    exact h.ok

/-! ## Forward elimination -/

variable {t₀ : Tableau α n}

theorem writeTerm (h : Follows (Settled t₀) trail t) (i : Fin n) (x : α) :
    Leads (Settled t₀) (trail.write (trail.now.setTerm? i x)) (t.withTerm i x) := by
  refine h.write ?_ (h.holds.write _ _ _)
  rw [h.now]
  exact setTerm?_buffers t i x

/-- A loop that writes the row in place `j` entry by entry, from what stood there.  While it runs,
the trail stands at the tableau with the row written so far. -/
theorem writeRow (h : Follows (Settled t₀) trail t) (j : Fin n) (g : Fin n → α → α)
    {body : Trail α → Nat → Except (Stop α) (Trail α)} (ks : List (Fin n))
    (hbody : ∀ row trail (k : Fin n), Follows (Settled t₀) trail (t.withRow j row) →
      body trail k = trail.write (trail.now.setEntry? j k (g k (row.get (t.colAt k))))) :
    Leads (Settled t₀) ((ks.map Fin.val).foldlM body trail)
      (t.withRow j (ks.foldl (fun row k => put row (t.colAt k) (g k (row.get (t.colAt k))))
        (t.coefficients.get (t.rowAt j)))) := by
  rw [← t.withRow_self j] at h
  refine h.foldlM (t.withRow j) fun k _ row trail h => ?_
  rw [hbody row trail k h]
  refine h.write ?_ (h.holds.write _ _ _)
  rw [h.now]
  exact t.setEntry?_buffers j k row _

theorem normalize [Div α] (h : Follows (Settled t₀) trail t) (i : Fin n) :
    Leads (Settled t₀) (trail.normalize i) (t.normalize i) := by
  unfold Trail.normalize
  rw [h.entry?, read_some, h.span_places]
  refine (h.writeRow i (fun _ x => x / t.entry i i) (t.places i.val) ?_).bind fun trail h => ?_
  · intro row trail k h
    rw [h.entry?, read_some, t.entry_withRow_self]
  · rw [h.term?, read_some]
    exact h.writeTerm i _

theorem reduceRow [Sub α] [Mul α] [Pivoting α] (h : Follows (Settled t₀) trail t) {i j : Fin n}
    (hij : i ≠ j) : Leads (Settled t₀) (trail.reduceRow i j) (t.reduceRow i j) := by
  -- Row `i` is read while row `j` is written, so what is read must not be what has been written.
  have hrow : t.rowAt i ≠ t.rowAt j := fun e => hij (h.holds.ordered.rows e)
  unfold Trail.reduceRow Tableau.reduceRow
  rw [h.entry?, read_some]
  dsimp only
  split
  · exact h.ok
  · rw [h.span_places]
    refine (h.writeRow j (fun k x => x - t.entry j i * t.entry i k) (t.places (i.val + 1)) ?_).bind
      fun trail h => ?_
    · intro row trail k h
      rw [h.entry?, read_some, h.entry?, read_some, t.entry_withRow_self, t.entry_withRow_of_ne hrow]
    · rw [h.term?, read_some, h.term?, read_some]
      exact h.writeTerm j _

theorem reduceBelow [Sub α] [Mul α] [Pivoting α] (h : Follows (Settled t₀) trail t) (i : Fin n) :
    Leads (Settled t₀) (trail.reduceBelow i) (t.reduceBelow i) := by
  unfold Trail.reduceBelow
  rw [h.span_places]
  refine h.foldlM id fun j hj s trail h => ?_
  have hlt : i.val < j.val := (mem_places.mp hj).1
  exact h.reduceRow (Fin.ne_of_lt hlt)

/-- A run along a trail breaks off where the run of the tableau does. -/
def BreaksOff (t₀ : Tableau α n) (b : Breakdown α n) (e : Stop α) : Prop :=
  ∃ trail, e = .noPivot b.row trail ∧ Follows (Settled t₀) trail b.tableau

/-- A run along a trail goes as the run of the tableau does. -/
def Runs (t₀ : Tableau α n) : Except (Breakdown α n) (Tableau α n) → Except (Stop α) (Trail α) →
    Prop :=
  Alike (BreaksOff t₀) fun t trail => Follows (Settled t₀) trail t

theorem report (h : Follows (Settled t₀) trail t) (e : Notice) :
    Follows (Settled t₀) (trail.push (trail.now.report e)) (t.report e) := by
  have hreport : Settled t₀ (t.report e) := h.holds.write _ _ _
  rw [h.now]
  exact h.push hreport

theorem selectPivot [Pivoting α] (h : Follows (Settled t₀) trail t) {i : Fin n}
    (hi : i.val < t₀.active) : Runs t₀ (t.selectPivot i) (trail.selectPivot i) := by
  unfold Trail.selectPivot Tableau.selectPivot
  rw [h.bestRow?, read_some, h.entry?, read_some]
  dsimp only
  by_cases hz : isZero (t.entry (t.bestRow i) i) = true
  · rw [if_pos hz, if_pos hz, h.colOrder, read_some]
    exact .error ⟨_, rfl, h.report _⟩
  · rw [if_neg hz, if_neg hz]
    unfold Tableau.exchange
    by_cases hb : t.bestRow i = i
    · rw [if_pos hb, if_pos (congrArg Fin.val hb)]
      exact .ok h
    · have hbest := (t.bestRow_mem (h.holds.active ▸ hi)).2
      rw [h.holds.active] at hbest
      rw [if_neg hb, if_neg (Fin.val_ne_of_ne hb), h.colOrder, read_some, h.rowOrder, read_some,
        h.rowOrder, read_some]
      have hreport := h.report (.pivotExchanged (t.colAt i) (t.rowAt (t.bestRow i)) (t.rowAt i))
      obtain ⟨trail', heq, h'⟩ := hreport.write (swapRows?_buffers _ i (t.bestRow i))
        (hreport.holds.swapRows hi hbest)
      rw [← hreport.now] at heq
      rw [heq]
      exact .ok h'

theorem step [Sub α] [Mul α] [Div α] [Pivoting α] (h : Follows (Settled t₀) trail t) {i : Fin n}
    (hi : i.val < t₀.active) : Runs t₀ (t.step i) (trail.step i) := by
  have hselect := h.selectPivot hi
  unfold Tableau.step Trail.step
  generalize t.selectPivot i = x at hselect ⊢
  generalize trail.selectPivot i = y at hselect ⊢
  cases hselect with
  | error he => exact .error he
  | ok h =>
    obtain ⟨trail', heq, h'⟩ := (h.normalize i).bind fun _ h => h.reduceBelow i
    exact heq ▸ .ok h'

theorem eliminate [Sub α] [Mul α] [Div α] [Pivoting α] (h : Follows (Settled t₀) trail t) :
    Runs t₀ t.eliminate trail.eliminate := by
  have hactive := h.holds.active
  unfold Tableau.eliminate Trail.eliminate
  rw [h.span_places, List.foldlM_map]
  refine Alike.foldlM (fun i hi t trail h => h.step ?_) h
  rw [← hactive]
  exact (mem_places.mp hi).2

/-! ## Back substitution -/

theorem dischargeAbove [Sub α] [Mul α] (h : Follows (Settled t₀) trail t) (i : Fin n) :
    Leads (Settled t₀) (trail.dischargeAbove i) (t.dischargeAbove i) := by
  unfold Trail.dischargeAbove Tableau.dischargeAbove
  rw [h.term?, read_some, span_below, ← List.map_reverse]
  refine h.foldlM id fun j _ s trail h => ?_
  rw [h.term?, read_some, h.entry?, read_some]
  exact h.writeTerm j _

theorem substituteBack [Sub α] [Mul α] (h : Follows (Settled t₀) trail t) :
    Leads (Settled t₀) trail.substituteBack t.substituteBack := by
  unfold Trail.substituteBack
  rw [h.span_places, ← List.map_reverse]
  exact h.foldlM id fun i _ _ _ h => h.dischargeAbove i

/-- What is written at the end goes straight after the last state of the back substitution. -/
theorem solve [Zero α] [Sub α] [Mul α] [Div α] [Pivoting α] (h : Follows (Settled t₀) trail t) :
    (∃ b trail', t.eliminate = .error b ∧ trail.solve = .error (.noPivot b.row trail') ∧
      Follows (Settled t₀) trail' b.tableau) ∨
    ∃ t' trail', t.eliminate = .ok t' ∧ trail.solve = .ok trail' ∧
      Follows (Settled t₀) trail' t'.substituteBack.withSolution ∧
      Settled t₀ t'.substituteBack ∧
      trail'.past.getLast? = some t'.substituteBack.buffers := by
  have helim := h.eliminate
  unfold Trail.solve
  generalize t.eliminate = x at helim ⊢
  generalize trail.eliminate = y at helim ⊢
  cases helim with
  | error he =>
    obtain ⟨trail', rfl, h'⟩ := he
    exact .inl ⟨_, trail', rfl, rfl, h'⟩
  | @ok t' trail' h' =>
    obtain ⟨last, hback, hlast⟩ := h'.substituteBack
    have hwrite : last.now.writeSolution? = some t'.substituteBack.withSolution.buffers := by
      rw [hlast.now]
      exact writeSolution?_buffers _
    refine .inr ⟨t', last.push t'.substituteBack.withSolution.buffers, rfl, ?_,
      hlast.push (hlast.holds.write _ _ _), hlast.holds, ?_⟩
    · show trail'.substituteBack >>= _ = _
      rw [hback]
      show last.write last.now.writeSolution? = _
      rw [hwrite]
      rfl
    · show (last.past ++ [last.now]).getLast? = _
      rw [List.getLast?_concat, hlast.now]

end Follows

/-! ## Orders of plain arrays -/

namespace Buffers

/-- The arrays of a system of `n` equations, with both orders permutations. -/
structure InOrder (n : Nat) (m : Buffers α) : Prop where
  rows : m.rowOrder.toList.Perm (List.range n)
  cols : m.colOrder.toList.Perm (List.range n)
  active_le : m.active ≤ n
  coefficients : m.coefficients.size = n ∧ ∀ row ∈ m.coefficients, row.size = n
  terms : m.terms.size = n

/-- Since `m₀`, nothing has moved but active rows. -/
structure SettledSince (m₀ m : Buffers α) : Prop where
  colOrder : m.colOrder = m₀.colOrder
  active : m.active = m₀.active
  behind : ∀ k, m₀.active ≤ k → m.rowOrder[k]? = m₀.rowOrder[k]?

/-- Variable `k` has its value in `final` from the active place `p` of `solved`, and no other place
has that variable. -/
structure Supplied (solved final : Buffers α) (p k : Nat) : Prop where
  active : p < solved.active
  place : ∀ q, solved.colOrder[q]? = some k ↔ q = p
  value : ∃ x, solved.term? p = some x ∧ final.terms[k]? = some x

end Buffers

namespace Tableau

theorem perm_range (order : Vector (Fin n) n) (h : Function.Injective order.get) :
    (order.map Fin.val).toArray.toList.Perm (List.range n) := by
  have hperm : order.toList.Perm (List.finRange n) := by
    rw [toList_eq_ofFn]
    refine (List.perm_ext_iff_of_nodup (List.nodup_ofFn.mpr h) (List.nodup_finRange n)).mpr
      fun k => ?_
    rw [List.mem_ofFn]
    exact ⟨fun _ => List.mem_finRange k, fun _ => Finite.surjective_of_injective h k⟩
  rw [Vector.toList_toArray, Vector.toList_map, ← List.map_coe_finRange_eq_range]
  exact hperm.map Fin.val

theorem Ordered.inOrder (h : Ordered t) : t.buffers.InOrder n where
  rows := perm_range t.rowOrder h.rows
  cols := perm_range t.colOrder h.cols
  active_le := t.active_le
  coefficients := by
    refine ⟨Vector.size_toArray _, fun row hrow => ?_⟩
    rw [buffers, Vector.toArray_map] at hrow
    obtain ⟨v, -, rfl⟩ := Array.mem_map.mp hrow
    exact Vector.size_toArray v
  terms := Vector.size_toArray _

theorem Settled.settledSince (h : Settled t t') : t.buffers.SettledSince t'.buffers where
  colOrder := by
    show (t'.colOrder.map Fin.val).toArray = (t.colOrder.map Fin.val).toArray
    rw [h.colOrder]
  active := h.active
  behind k hk := by
    by_cases hkn : k < n
    · refine (rowOrder_buffers t' ⟨k, hkn⟩).trans ?_
      rw [h.behind ⟨k, hkn⟩ hk]
      exact (rowOrder_buffers t ⟨k, hkn⟩).symm
    · have hnone : ∀ s : Tableau α n, s.buffers.rowOrder[k]? = none := fun s =>
        Array.getElem?_eq_none (by rw [buffers, Vector.size_toArray]; omega)
      rw [hnone, hnone]

/-! ## Where the answer comes from -/

theorem get_scatter [Zero α] (h : Ordered t) (p : Fin n) :
    t.scatter.get (t.colAt p) = if p.val < t.active then t.term p else 0 := by
  have hloop := get_foldl_put t.colAt h.cols (fun k _ => t.term k) (t.places 0)
    (t.pairwise_places 0).nodup (Vector.replicate n 0) p
  refine hloop.trans ?_
  rw [Vector.get_eq_getElem, Vector.getElem_replicate]
  simp only [mem_places, Nat.zero_le, true_and]

theorem colOrder_eq_some_iff (h : Ordered t) (p : Fin n) (q : Nat) :
    t.buffers.colOrder[q]? = some (t.colAt p).val ↔ q = p.val := by
  constructor
  · intro hq
    have hqn : q < n := by
      obtain ⟨hlt, -⟩ := Array.getElem?_eq_some_iff.mp hq
      rwa [buffers, Vector.size_toArray] at hlt
    rw [colOrder_buffers t ⟨q, hqn⟩] at hq
    exact congrArg Fin.val (h.cols (Fin.ext (Option.some.inj hq)))
  · rintro rfl
    exact colOrder_buffers t p

theorem isRetired_colAt_start [Pivoting α] (a : Table α n n) (b : Vector α n) (ignore : Bool)
    (p : Fin n) : isRetired a b ignore ((start a b ignore).colAt p) = true ↔
      (start a b ignore).active ≤ p.val := by
  obtain ⟨-, htogether, hretired⟩ := Arranged.start_spec a b ignore
  have hshows := Shows.start a b ignore
  rw [hshows.colAt, htogether, hshows.active]
  exact hretired p

/-- Every variable that is not retired is supplied by the row in its place; a retired one is zero. -/
theorem Settled.supplied [Zero α] [Pivoting α] {a : Table α n n} {b : Vector α n} {ignore : Bool}
    (h : Settled (start a b ignore) t) (k : Fin n) :
    (isRetired a b ignore k = true ∧ t.withSolution.buffers.terms[k.val]? = some 0) ∨
      isRetired a b ignore k = false ∧ ∃ p, t.buffers.Supplied t.withSolution.buffers p k := by
  obtain ⟨p, rfl⟩ := Finite.surjective_of_injective h.ordered.cols k
  have hretired := isRetired_colAt_start a b ignore p
  have hcol : (start a b ignore).colAt p = t.colAt p := by
    unfold colAt
    rw [h.colOrder]
  rw [hcol, ← h.active] at hretired
  have hvalue : t.withSolution.buffers.terms[(t.colAt p).val]? =
      some (if p.val < t.active then t.term p else 0) := by
    refine (terms_buffers t.withSolution (t.colAt p)).trans ?_
    rw [← get_scatter h.ordered p]
    rfl
  by_cases hp : p.val < t.active
  · rw [if_pos hp] at hvalue
    exact .inr ⟨Bool.eq_false_iff.mpr fun e => absurd (hretired.mp e) (Nat.not_le.mpr hp), p, hp,
      colOrder_eq_some_iff h.ordered p, t.term p, term?_buffers t p, hvalue⟩
  · rw [if_neg hp] at hvalue
    exact .inl ⟨hretired.mpr (Nat.not_lt.mp hp), hvalue⟩

end Tableau

/-! ## The run -/

/-- The run ended with these contents of the caller's buffers, notices and outcome. -/
structure Course.EndsAs (c : Course α) (e : Ending α n) : Prop where
  coefficients : c.elimination.now.coefficients = (e.coefficients.map Vector.toArray).toArray
  terms : c.elimination.now.terms = e.terms.toArray
  notices : c.elimination.now.notices = e.notices
  outcome : c.outcome = e.outcome

namespace Follows

theorem setup [Pivoting α] (a : Table α n n) (b : Vector α n) (ignore : Bool) :
    Leads Ordered
      (if ignore then Trail.retireIdentities ⟨[], Buffers.ofSystem a b⟩ 0
        else .ok ⟨[], Buffers.ofSystem a b⟩)
      (Tableau.start a b ignore) := by
  have h : Follows Ordered ⟨[], Buffers.ofSystem a b⟩ (Tableau.ofSystem a b) := by
    rw [← buffers_ofSystem]
    exact start (Ordered.ofSystem a b)
  cases ignore with
  | false => exact h.ok
  | true => exact h.retireIdentities 0 0

theorem inOrder (hInv : ∀ t, Inv t → Ordered t) (h : Follows Inv trail t) {m : Buffers α}
    (hm : m ∈ trail.states) : m.InOrder n := by
  obtain ⟨t', rfl, ht'⟩ := h.mem_states hm
  exact (hInv t' ht').inOrder

theorem settledSince {t₀ : Tableau α n} (h : Follows (Settled t₀) trail t) {m : Buffers α}
    (hm : m ∈ trail.states) : t₀.buffers.SettledSince m := by
  obtain ⟨t', rfl, ht'⟩ := h.mem_states hm
  exact ht'.settledSince

theorem endsAs (h : Follows Inv trail t) (setup : Trail α) (outcome : Except Fault Unit) :
    Course.EndsAs ⟨setup, trail, outcome⟩ ⟨t.coefficients, t.terms, t.notices, outcome⟩ := by
  constructor
  · exact congrArg Buffers.coefficients h.now
  · exact congrArg Buffers.terms h.now
  · exact congrArg Buffers.notices h.now
  · rfl

end Follows

/-- The run on plain arrays comes to its end, which is that of the run on tableaus.  In every state
both orders are permutations; from the beginning of the elimination on the column order is fixed, and
so is the row order behind the active part; and a run that succeeds gives each variable the value in
its own active place, or zero if it was retired. -/
theorem indices_in_range [Zero α] [Sub α] [Mul α] [Div α] [Pivoting α] (a : Table α n n)
    (b : Vector α n) (ignore : Bool) :
    ∃ c : Course α, (Buffers.ofSystem a b).run ignore = some c ∧
      (∀ m ∈ c.setup.states ++ c.elimination.states, m.InOrder n) ∧
      (∀ m ∈ c.elimination.states, c.setup.now.SettledSince m) ∧
      c.setup.now = (Tableau.start a b ignore).buffers ∧
      c.EndsAs (solveInPlace a b ignore) ∧
      (c.outcome = .ok () → ∃ solved, c.elimination.past.getLast? = some solved ∧
        ∀ k : Fin n,
          (isRetired a b ignore k = true ∧ c.elimination.now.terms[k.val]? = some 0) ∨
            isRetired a b ignore k = false ∧ ∃ p, solved.Supplied c.elimination.now p k) := by
  obtain ⟨setup, hsetup, h⟩ := Follows.setup a b ignore
  have hstart := Follows.start (Settled.refl h.holds)
  -- What the states show does not depend on how the run ends.
  have hstates : ∀ {trail : Trail α} {t : Tableau α n},
      Follows (Settled (Tableau.start a b ignore)) trail t →
        (∀ m ∈ setup.states ++ trail.states, m.InOrder n) ∧
          ∀ m ∈ trail.states, setup.now.SettledSince m := by
    intro trail t h'
    refine ⟨fun m hm => ?_, fun m hm => h.now ▸ h'.settledSince hm⟩
    rcases List.mem_append.mp hm with hm | hm
    · exact h.inOrder (fun _ ht => ht) hm
    · exact h'.inOrder (fun _ ht => ht.ordered) hm
  unfold Buffers.run solveInPlace
  rw [hsetup]
  dsimp only
  rw [h.now]
  rcases hstart.solve with
    ⟨_, trail, helim, hsolve, h'⟩ | ⟨t, trail, helim, hsolve, h', hlast, hpast⟩
  · rw [helim, hsolve]
    obtain ⟨hinOrder, hsettled⟩ := hstates h'
    exact ⟨_, rfl, hinOrder, hsettled, h.now, h'.endsAs _ _, fun hok => nomatch hok⟩
  · rw [helim, hsolve]
    obtain ⟨hinOrder, hsettled⟩ := hstates h'
    refine ⟨_, rfl, hinOrder, hsettled, h.now, h'.endsAs _ _, fun _ => ⟨_, hpast, fun k => ?_⟩⟩
    rw [h'.now]
    exact hlast.supplied k

/-- The first equation is `0 = 0`, and each of the other two has the other's variable. -/
def gapped : Table ℤ 3 3 := #v[#v[0, 0, 0], #v[0, 0, 1], #v[0, 1, 0]]

/-- One equation is retired, two rows are exchanged, and the second variable is supplied. -/
theorem indices_in_range_gapped :
    ∃ c : Course ℤ, (Buffers.ofSystem gapped #v[0, 5, 7]).run true = some c ∧
      c.setup.now.active = 2 ∧ c.outcome = .ok () ∧ c.elimination.now.terms = #[0, 7, 5] ∧
      (∀ m ∈ c.setup.states ++ c.elimination.states, m.InOrder 3) ∧
      ∃ solved p, c.elimination.past.getLast? = some solved ∧
        solved.Supplied c.elimination.now p 1 := by
  obtain ⟨c, hrun, horder, -, hsetup, hends, hanswer⟩ := indices_in_range gapped #v[0, 5, 7] true
  have hactive : (Tableau.start gapped #v[0, 5, 7] true).active = 2 := by cbv
  have hok : c.outcome = .ok () := hends.outcome.trans (by cbv)
  obtain ⟨solved, hlast, hsupplied⟩ := hanswer hok
  refine ⟨c, hrun, hsetup ▸ hactive, hok, hends.terms.trans (by cbv), horder, ?_⟩
  rcases hsupplied 1 with ⟨hretired, -⟩ | ⟨-, p, hp⟩
  · have hkept : isRetired gapped #v[0, 5, 7] true 1 = false := by cbv
    exact absurd hretired (Bool.eq_false_iff.mp hkept)
  · exact ⟨solved, p, hlast, hp⟩

end Pivotal.Elimination
