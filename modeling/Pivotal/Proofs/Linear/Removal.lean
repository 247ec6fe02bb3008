import Pivotal.Proofs.Elimination.Magnitude
import Pivotal.Proofs.Elimination.Refinement
import Pivotal.Proofs.Elimination.Retirement
import Pivotal.Proofs.Linear.History

/-!
# Removing exactly the identity equations

The scan exchanges an identity equation with the last active one, shrinks the active part and looks at
the same place again, so what it has passed, what it has not seen yet and what it has removed are
three regions that move against each other.  `Removal` says what is left of them at the end:

* the two orders are one, and it is a permutation;
* its active part holds the other equations and the rest the identity equations, each once;
* the buffers are the caller's, and the count is the number of identity equations.

`identityEquations` is a filter over the untouched buffers and knows nothing of the scan; a system
lists these equations and reports their number (`removal_reported`).
-/

namespace Pivotal.Elimination

variable {α : Type u} {n : Nat}

/-! ## The scan -/

/-- What the scan keeps, and what it counts. -/
theorem removeIdentities_keeps [Pivoting α] (t : Tableau α n) (i removed : Nat)
    (htogether : t.rowOrder = t.colOrder) :
    (t.removeIdentities i removed).1.coefficients = t.coefficients ∧
      (t.removeIdentities i removed).1.terms = t.terms ∧
      (t.removeIdentities i removed).1.rowOrder = (t.removeIdentities i removed).1.colOrder ∧
      (t.removeIdentities i removed).1.active + (t.removeIdentities i removed).2 =
        t.active + removed := by
  fun_induction Tableau.removeIdentities t i removed with
  | case1 t i removed hi place hid =>
    rename_i ih
    have hretired : ((t.retire i hi).report (.identityRetired (t.rowAt place))).rowOrder =
        ((t.retire i hi).report (.identityRetired (t.rowAt place))).colOrder := by
      simp only [Tableau.report, Tableau.retire, htogether]
    obtain ⟨hcoefficients, hterms, horders, hcount⟩ := ih hretired
    refine ⟨hcoefficients, hterms, horders, hcount.trans ?_⟩
    show t.active - 1 + (removed + 1) = t.active + removed
    omega
  | case2 t i removed hi place hid =>
    rename_i ih
    exact ih htogether
  | case3 t i removed hi => exact ⟨rfl, rfl, htogether, rfl⟩

/-! ## The two parts of an order -/

/-- Where a property holds from place `m` on and nowhere before, it parts a list at `m`. -/
theorem filter_ofFn {β : Type*} {f : Fin n → β} {p : β → Bool} {m : Nat}
    (h : ∀ k, p (f k) = true ↔ m ≤ k.val) :
    (List.ofFn f).filter p = (List.ofFn f).drop m ∧
      ((List.ofFn f).filter fun x => !p x) = (List.ofFn f).take m := by
  have htake : ∀ x ∈ (List.ofFn f).take m, p x = false := by
    intro x hx
    obtain ⟨k, hk, rfl⟩ := List.mem_take_iff_getElem.mp hx
    rw [List.length_ofFn] at hk
    rw [List.getElem_ofFn, Bool.eq_false_iff]
    intro hp
    have hmk : m ≤ k := (h _).mp hp
    omega
  have hdrop : ∀ x ∈ (List.ofFn f).drop m, p x = true := by
    intro x hx
    obtain ⟨k, hk, rfl⟩ := List.mem_drop_iff_getElem.mp hx
    rw [List.getElem_ofFn, h]
    exact Nat.le_add_right m k
  have hsplit : List.ofFn f = (List.ofFn f).take m ++ (List.ofFn f).drop m :=
    (List.take_append_drop m _).symm
  constructor
  · calc (List.ofFn f).filter p
        = ((List.ofFn f).take m ++ (List.ofFn f).drop m).filter p := by rw [← hsplit]
      _ = [] ++ (List.ofFn f).drop m := by
        rw [List.filter_append, List.filter_eq_self.mpr hdrop,
          List.filter_eq_nil_iff.mpr fun x hx => by rw [htake x hx]; exact Bool.false_ne_true]
      _ = (List.ofFn f).drop m := List.nil_append _
  · calc (List.ofFn f).filter (fun x => !p x)
        = ((List.ofFn f).take m ++ (List.ofFn f).drop m).filter (fun x => !p x) := by rw [← hsplit]
      _ = (List.ofFn f).take m ++ [] := by
        rw [List.filter_append, List.filter_eq_self.mpr fun x hx => by rw [htake x hx]; rfl,
          List.filter_eq_nil_iff.mpr fun x hx => by rw [hdrop x hx]; exact Bool.false_ne_true]
      _ = (List.ofFn f).take m := List.append_nil _

variable [Pivoting α]

/-- On a square system the listed equations are those of the scan's own test. -/
theorem identityEquations_square (a : Table α n n) (b : Vector α n) :
    identityEquations ⟨n, n, a⟩ b.toArray =
      ((List.finRange n).filter fun k => isIdentity a (b.get k) k k).map Fin.val := by
  unfold identityEquations
  have hbound : min (min b.toArray.size n) n = n := by
    rw [Vector.size_toArray, Nat.min_self, Nat.min_self]
  show (List.range (min (min b.toArray.size n) n)).filter _ = _
  rw [hbound, ← List.map_coe_finRange_eq_range, List.filter_map]
  congr 1
  refine List.filter_congr fun k _ => ?_
  have hk : k.val < b.toArray.size ∧ k.val < n ∧ k.val < n := by
    rw [Vector.size_toArray]
    exact ⟨k.isLt, k.isLt, k.isLt⟩
  exact dif_pos hk

/-! ## What the scan leaves -/

/-- The identity equations of the system, and no others, are removed. -/
structure Removal (a : Table α n n) (b : Vector α n) (t : Tableau α n) (removed : Nat) : Prop where
  orders : t.rowOrder = t.colOrder
  permutation : t.rowOrder.toList.Perm (List.finRange n)
  active : t.active + removed = n
  kept : (t.rowOrder.toList.take t.active).Perm
    ((List.finRange n).filter fun k => !isIdentity a (b.get k) k k)
  behind : ((t.rowOrder.toList.drop t.active).map Fin.val).Perm
    (identityEquations ⟨n, n, a⟩ b.toArray)
  count : removed = (identityEquations ⟨n, n, a⟩ b.toArray).length
  coefficients : t.coefficients = a
  terms : t.terms = b

theorem removal_of_start (a : Table α n n) (b : Vector α n) :
    Removal a b ((Tableau.ofSystem a b).removeIdentities 0 0).1
      ((Tableau.ofSystem a b).removeIdentities 0 0).2 := by
  obtain ⟨hcoefficients, hterms, horders, hcount⟩ :=
    removeIdentities_keeps (Tableau.ofSystem a b) 0 0 rfl
  have hshows : Shows ((Tableau.ofSystem a b).removeIdentities 0 0).1 (Arranged.start a b true) :=
    Shows.start a b true
  obtain ⟨-, -, hretired⟩ := Arranged.start_spec a b true
  generalize (Tableau.ofSystem a b).removeIdentities 0 0 = out at *
  have horder : out.1.rowOrder.toList = List.ofFn (Arranged.start a b true).equations := by
    rw [toList_eq_ofFn]
    exact congrArg List.ofFn (funext hshows.rowAt)
  have hperm : (List.ofFn (Arranged.start a b true).equations).Perm (List.finRange n) := by
    rw [List.ofFn_eq_map]
    exact Equiv.Perm.map_finRange_perm _
  -- The identities are the places from `active` on, so both parts of the order are filters of it.
  obtain ⟨hdrop, htake⟩ := filter_ofFn (p := fun k => isIdentity a (b.get k) k k) hretired
  rw [← hshows.active, ← horder] at hdrop htake
  rw [← horder] at hperm
  have hbehind : ((out.1.rowOrder.toList.drop out.1.active).map Fin.val).Perm
      (identityEquations ⟨n, n, a⟩ b.toArray) := by
    rw [identityEquations_square, ← hdrop]
    exact (hperm.filter _).map _
  refine ⟨horders, hperm, hcount, ?_, hbehind, ?_, hcoefficients, hterms⟩
  · rw [← htake]
    exact hperm.filter _
  · have hlength := hbehind.length_eq
    rw [List.length_map, List.length_drop, Vector.length_toList] at hlength
    have hactive : out.1.active + out.2 = n := hcount
    omega

end Pivotal.Elimination

namespace Pivotal.Linear

open Elimination (Tableau Removal identityEquations removal_of_start)

/-- A numeric call reports the number of the equations it leaves out, whether or not it succeeds. -/
theorem removed_reported (s : LinearSystem) {c : Call} (hmethod : c.method = .numeric) :
    (s.call c).system.statistics.get? "identity equations removed" =
      some (toString (removed s.coefficients s.terms c).length) := by
  have hstarted : (started s.coefficients s.terms c).get? "identity equations removed" =
      some (toString (removed s.coefficients s.terms c).length) := by
    unfold started
    rw [hmethod, Dict.get?_put, if_pos rfl]
  cases h : answer s.coefficients s.terms c with
  | error f =>
    rw [call_of_error h]
    exact hstarted
  | ok x =>
    obtain ⟨r, -, hcall⟩ := call_of_ok h
    rw [hcall]
    show ((started s.coefficients s.terms c).putAll (added s.terms c r)).get? _ = _
    have hadded : (added s.terms c r).reverse.lookup "identity equations removed" = none := rfl
    rw [Dict.get?_putAll, hadded, hstarted]
    rfl

/-- The scan removes exactly the identity equations, over scalars of any kind, and what a system
lists and reports as removed is what the scan removes from its buffers. -/
theorem removal_reported {α : Type u} [Pivoting α] {n : Nat} (a : Table α n n) (b : Vector α n) :
    Removal a b ((Tableau.ofSystem a b).removeIdentities 0 0).1
        ((Tableau.ofSystem a b).removeIdentities 0 0).2 ∧
      ∀ (s : LinearSystem) (m : Nat) (c : Table Complex m m) (d : Vector Complex m)
        (elapsed : Float), s.coefficients = ⟨m, m, c⟩ → s.terms = d.toArray →
        s.config.method = .numeric → s.config.ignoreIdentities = true →
          (s.solver elapsed).system.identities = identityEquations ⟨m, m, c⟩ d.toArray ∧
          (s.solver elapsed).system.statistics.get? "identity equations removed" =
            some (toString ((Tableau.ofSystem c d).removeIdentities 0 0).2) := by
  refine ⟨removal_of_start a b, fun s m c d elapsed hc hd hmethod hignore => ?_⟩
  have hremoved : removed s.coefficients s.terms
      ⟨s.config.method, s.config.ignoreIdentities, elapsed⟩ =
        identityEquations ⟨m, m, c⟩ d.toArray := by
    unfold removed
    rw [hmethod, hignore, hc, hd]
    rfl
  have hcall : s.solver elapsed = s.call ⟨s.config.method, s.config.ignoreIdentities, elapsed⟩ := rfl
  rw [hcall]
  constructor
  · rw [identities_call, hremoved]
  · rw [removed_reported s hmethod, hremoved, ← (removal_of_start c d).count]

/-- Equations 1 and 3 are identities: 3 comes into the place of 1 and is looked at there. -/
def hollowSystem : Table ℚ 4 4 :=
  #v[#v[0, 0, 2, 0], #v[0, 0, 0, 0], #v[3, 0, 1, 0], #v[0, 0, 0, 0]]

def hollowTerms : Vector ℚ 4 := #v[4, 0, 5, 0]

/-- A system of two equations, the second of them `0 = 0`. -/
def halfSystem : LinearSystem where
  coefficients := ⟨2, 2, #v[#v[1, 0], #v[0, 0]]⟩
  terms := #[1, 0]
  unknowns := ["x0", "x1"]
  config := { ignoreIdentities := true }

theorem removal_reported_hollow :
    ((Tableau.ofSystem hollowSystem hollowTerms).removeIdentities 0 0).1.rowOrder = #v[0, 2, 3, 1] ∧
      Removal hollowSystem hollowTerms
        ((Tableau.ofSystem hollowSystem hollowTerms).removeIdentities 0 0).1 2 ∧
      (halfSystem.solver 0).system.statistics.get? "identity equations removed" =
        some (toString ((Tableau.ofSystem #v[#v[(1 : Complex), 0], #v[0, 0]]
          #v[1, 0]).removeIdentities 0 0).2) := by
  have horder : ((Tableau.ofSystem hollowSystem hollowTerms).removeIdentities 0 0).1.rowOrder =
      #v[0, 2, 3, 1] := by cbv
  have hcount : ((Tableau.ofSystem hollowSystem hollowTerms).removeIdentities 0 0).2 = 2 := by cbv
  obtain ⟨hremoval, hreported⟩ := removal_reported hollowSystem hollowTerms
  rw [hcount] at hremoval
  exact ⟨horder, hremoval, (hreported halfSystem 2 _ #v[1, 0] 0 rfl rfl rfl rfl).2⟩

end Pivotal.Linear
