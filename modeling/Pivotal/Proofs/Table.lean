import Mathlib
import Pivotal.Grid

/-!
# Entries of tables and loops that write them

The engines change tables by `put` and `swap`, entry by entry or row by row, in loops over a list of
places.  Here is what such a loop leaves in each place:

* `get_foldl_put`: a loop that writes each listed place once, from what stood there;
* `foldl_rowwise`: a loop that changes each listed row once, from that row and one fixed row;
* `Alike.foldlM`: two loops that may break off, whose steps go together, end alike;
* `foldlM_finRange`: what every step of a loop over all places keeps, the loop keeps.
-/

namespace Pivotal

variable {α : Type u} {β : Type v} {n : Nat}

/-! ## Entries -/

theorem ext_get {v w : Vector α n} (h : ∀ i, v.get i = w.get i) : v = w := by
  ext i hi
  have hk := h ⟨i, hi⟩
  rwa [Vector.get_eq_getElem, Vector.get_eq_getElem] at hk

theorem get_put (v : Vector α n) (i j : Fin n) (x : α) :
    (put v i x).get j = if j = i then x else v.get j := by
  unfold put
  rw [Vector.get_eq_getElem, Vector.getElem_set, Vector.get_eq_getElem]
  by_cases h : j = i
  · rw [if_pos h, if_pos (congrArg Fin.val h.symm)]
  · rw [if_neg h, if_neg (fun e => h (Fin.ext e.symm))]

theorem forall_get_put {P : α → Prop} {v : Vector α n} {i : Fin n} {x : α}
    (hv : ∀ j, P (v.get j)) (hx : P x) (j : Fin n) : P ((put v i x).get j) := by
  rw [get_put]
  by_cases h : j = i
  · rwa [if_pos h]
  · rw [if_neg h]
    exact hv j

/-- Place `k` of an exchanged vector holds what stood in the place that `k` is exchanged with. -/
theorem get_swap (v : Vector α n) (i j k : Fin n) :
    (v.swap i j i.isLt j.isLt).get k = v.get (Equiv.swap i j k) := by
  rw [Vector.get_eq_getElem, Vector.getElem_swap, Equiv.swap_apply_def]
  simp only [Fin.val_inj]
  by_cases hi : k = i
  · rw [if_pos hi, if_pos hi]; rfl
  · rw [if_neg hi, if_neg hi]
    by_cases hj : k = j
    · rw [if_pos hj, if_pos hj]; rfl
    · rw [if_neg hj, if_neg hj]; rfl

theorem all_iff_get (v : Vector α n) (p : α → Bool) :
    v.all p = true ↔ ∀ i, p (v.get i) = true := by
  rw [Vector.all_iff_forall]
  exact ⟨fun h i => h i i.isLt, fun h i hi => h ⟨i, hi⟩⟩

theorem toList_eq_ofFn (v : Vector α n) : v.toList = List.ofFn v.get := by
  rw [← Vector.toList_ofFn]
  exact congrArg Vector.toList Vector.ofFn_getElem.symm

/-! ## Loops that write places -/

/-- A loop that writes place `f k` for each listed `k`, from what stood there. -/
theorem get_foldl_put (f : Fin n → Fin n) (hf : Function.Injective f) (g : Fin n → α → α)
    (ks : List (Fin n)) (hks : ks.Nodup) (v : Vector α n) (c : Fin n) :
    (ks.foldl (fun w k => put w (f k) (g k (w.get (f k)))) v).get (f c) =
      if c ∈ ks then g c (v.get (f c)) else v.get (f c) := by
  induction ks generalizing v with
  | nil => simp
  | cons k ks ih =>
    obtain ⟨hk, hks⟩ := List.nodup_cons.mp hks
    rw [List.foldl_cons, ih hks, get_put]
    by_cases hck : c = k
    · subst hck
      rw [if_neg hk, if_pos rfl, if_pos List.mem_cons_self]
    · rw [if_neg (fun e => hck (hf e))]
      simp only [List.mem_cons, hck, false_or]

/-- A loop that changes each listed row `j` once, from row `j` and the row in place `i`.  `view` is
what is seen of a row; `P` is kept by every step. -/
theorem foldl_rowwise {σ : Type w} (view : σ → Fin n → β) (P : σ → Prop) (body : σ → Fin n → σ)
    (g : β → β → β) (i : Fin n)
    (hbody : ∀ s j, P s → j ≠ i → P (body s j) ∧
      ∀ r, view (body s j) r = if r = j then g (view s i) (view s j) else view s r)
    (js : List (Fin n)) (hjs : js.Nodup) (hi : i ∉ js) (s : σ) (hs : P s) :
    P (js.foldl body s) ∧
      ∀ r, view (js.foldl body s) r = if r ∈ js then g (view s i) (view s r) else view s r := by
  induction js generalizing s with
  | nil => exact ⟨hs, fun r => by simp⟩
  | cons j js ih =>
    obtain ⟨hj, hjs⟩ := List.nodup_cons.mp hjs
    have hji : j ≠ i := fun e => hi (e ▸ List.mem_cons_self)
    obtain ⟨hP, hv⟩ := hbody s j hs hji
    obtain ⟨hP', hv'⟩ := ih hjs (fun h => hi (List.mem_cons_of_mem j h)) (body s j) hP
    refine ⟨hP', fun r => ?_⟩
    rw [List.foldl_cons, hv' r, hv i, if_neg (Ne.symm hji), hv r]
    by_cases hr : r = j
    · subst hr
      rw [if_neg hj, if_pos rfl, if_pos List.mem_cons_self]
    · rw [if_neg hr]
      simp only [List.mem_cons, hr, false_or]

/-! ## Loops that may break off -/

/-- Two outcomes that go together: both break off in related states, or neither does. -/
inductive Alike {ε ε' σ σ' : Type*} (E : ε → ε' → Prop) (R : σ → σ' → Prop) :
    Except ε σ → Except ε' σ' → Prop
  | error {e : ε} {e' : ε'} : E e e' → Alike E R (.error e) (.error e')
  | ok {s : σ} {s' : σ'} : R s s' → Alike E R (.ok s) (.ok s')

theorem Alike.foldlM {ε ε' σ σ' ι : Type*} {E : ε → ε' → Prop} {R : σ → σ' → Prop}
    {f : σ → ι → Except ε σ} {g : σ' → ι → Except ε' σ'} {l : List ι}
    (hstep : ∀ i ∈ l, ∀ s s', R s s' → Alike E R (f s i) (g s' i)) {s : σ} {s' : σ'}
    (h : R s s') : Alike E R (l.foldlM f s) (l.foldlM g s') := by
  induction l generalizing s s' with
  | nil => exact .ok h
  | cons i l ih =>
    rw [List.foldlM_cons, List.foldlM_cons]
    have hi := hstep i List.mem_cons_self s s' h
    generalize f s i = x at hi ⊢
    generalize g s' i = y at hi ⊢
    cases hi with
    | error he => exact .error he
    | ok hr => exact ih (fun k hk => hstep k (List.mem_cons_of_mem i hk)) hr

theorem finRange_drop (i : Fin n) :
    (List.finRange n).drop i = i :: (List.finRange n).drop (i + 1) := by
  rw [List.drop_eq_getElem_cons (by simp), List.getElem_finRange]
  rfl

/-- A loop over the places from `k` on: `P i` holds when the places before `i` are done, `Q` of what
a step breaks off with. -/
theorem foldlM_finRange_drop {ε σ : Type*} {m : Nat} {f : σ → Fin m → Except ε σ}
    (P : Nat → σ → Prop) (Q : ε → Prop)
    (hok : ∀ (i : Fin m) s s', P i s → f s i = .ok s' → P (i + 1) s')
    (herror : ∀ (i : Fin m) s e, P i s → f s i = .error e → Q e)
    (k : Nat) (hk : k ≤ m) (s : σ) (hs : P k s) :
    (∀ s', ((List.finRange m).drop k).foldlM f s = .ok s' → P m s') ∧
      ∀ e, ((List.finRange m).drop k).foldlM f s = .error e → Q e := by
  induction hd : m - k generalizing k s with
  | zero =>
    have hkm : k = m := by omega
    subst hkm
    rw [List.drop_of_length_le (by simp)]
    refine ⟨fun s' h => ?_, fun e h => by cases h⟩
    cases h
    exact hs
  | succ d ih =>
    have hlt : k < m := by omega
    have hdrop : (List.finRange m).drop k = ⟨k, hlt⟩ :: (List.finRange m).drop (k + 1) :=
      finRange_drop ⟨k, hlt⟩
    rw [hdrop, List.foldlM_cons]
    cases hf : f s ⟨k, hlt⟩ with
    | error e =>
      refine ⟨fun s' h => (by cases h), fun e' h => ?_⟩
      cases h
      exact herror _ s e hs hf
    | ok s' => exact ih (k + 1) (by omega) s' (hok _ s s' hs hf) (by omega)

theorem foldlM_finRange {ε σ : Type*} {m : Nat} {f : σ → Fin m → Except ε σ}
    (P : Nat → σ → Prop) (Q : ε → Prop)
    (hok : ∀ (i : Fin m) s s', P i s → f s i = .ok s' → P (i + 1) s')
    (herror : ∀ (i : Fin m) s e, P i s → f s i = .error e → Q e) (s : σ) (hs : P 0 s) :
    (∀ s', (List.finRange m).foldlM f s = .ok s' → P m s') ∧
      ∀ e, (List.finRange m).foldlM f s = .error e → Q e :=
  foldlM_finRange_drop P Q hok herror 0 (Nat.zero_le m) s hs

end Pivotal
