import Mathlib.Data.Set.Insert
import Mathlib.Logic.Function.Basic
import Pivotal.Expr.Eval

/-!
# Shared lists of operands

A list of operands is known by its identity, so an identity has to stand for one list under one
operation.  `Pool k S` says that it does throughout the expressions of `S`, and that the supply, at
`k`, has not given out any identity that is yet to come.  Every operation of the algebra keeps a pool
a pool: `Pool.group`, `Pool.invert`, `Pool.join`, `Pool.cancel`.
-/

namespace Pivotal

namespace Expr

/-! ## Taking expressions apart -/

theorem parts_cases (op : Op) (e : Expr) :
    (∃ list flag args, e = .node op list flag args ∧ e.parts op = (flag, args)) ∨
      e.parts op = (false, [e]) := by
  cases e with
  | leaf l => exact .inr rfl
  | node o list flag args =>
    by_cases ho : o = op
    · subst ho
      exact .inl ⟨list, flag, args, rfl, by simp only [parts, if_true]⟩
    · exact .inr (by simp only [parts, if_neg ho])

theorem invert_cases (op : Op) (e : Expr) :
    (∃ list flag args, e = .node op list flag args ∧
        invert op e = pure (.node op list (!flag) args)) ∨
      invert op e = group op true [e] := by
  cases e with
  | leaf l => exact .inr rfl
  | node o list flag args =>
    by_cases ho : o = op
    · subst ho
      exact .inl ⟨list, flag, args, rfl, by simp only [invert, if_true]⟩
    · exact .inr (by simp only [invert, if_neg ho])

/-- A join makes one list under the flag of the first expression.  The operands of the second are taken
as they are if the flags agree, and inverted one by one before if they do not. -/
theorem run_join_cases (op : Op) (x y : Expr) (k : Nat) :
    ((y.parts op).1 = (x.parts op).1 ∧ (join op x y).run k =
        (group op (x.parts op).1 ((x.parts op).2 ++ (y.parts op).2)).run k) ∨
      ((y.parts op).1 = !(x.parts op).1 ∧ (join op x y).run k =
        (group op (x.parts op).1
          ((x.parts op).2 ++ (((y.parts op).2.mapM (invert op)).run k).1)).run
          (((y.parts op).2.mapM (invert op)).run k).2) := by
  unfold join
  by_cases hflag : (y.parts op).1 = (x.parts op).1
  · exact .inl ⟨hflag, by simp only [if_pos hflag]; rfl⟩
  · exact .inr ⟨Bool.eq_not_of_ne hflag, by simp only [if_neg hflag]; rfl⟩

/-! ## Expressions over a register of lists -/

/-- Every list below the expression is registered: its identity was given out before `k` and stands
in `h` for its operation and operands. -/
inductive Stored (h : Nat → Op × List Expr) (k : Nat) : Expr → Prop
  | leaf (l : Leaf) : Stored h k (.leaf l)
  | node {op : Op} {list : Nat} {flag : Bool} {args : List Expr} (hlist : list < k)
      (hentry : h list = (op, args)) (hargs : ∀ e ∈ args, Stored h k e) :
      Stored h k (.node op list flag args)

variable {h h' : Nat → Op × List Expr} {k k' : Nat}

theorem Stored.mono {e : Expr} (hs : Stored h k e) (hk : k ≤ k') (hh : ∀ i < k, h' i = h i) :
    Stored h' k' e := by
  induction hs with
  | leaf l => exact .leaf l
  | node hlist hentry _ ih =>
    exact .node (hlist.trans_le hk) ((hh _ hlist).trans hentry) ih

theorem Stored.of_mem_parts {e x : Expr} {op : Op} (hs : Stored h k e) (hx : x ∈ (e.parts op).2) :
    Stored h k x := by
  rcases parts_cases op e with ⟨list, flag, args, rfl, hp⟩ | hp
  · rw [hp] at hx
    cases hs with
    | node _ _ hargs => exact hargs x hx
  · rw [hp] at hx
    exact List.mem_singleton.mp hx ▸ hs

/-! ## Pools -/

/-- The expressions of `S` share their lists under identities given out before `k`, each identity for
one list and one operation. -/
def Pool (k : Nat) (S : Set Expr) : Prop := ∃ h, ∀ e ∈ S, Stored h k e

namespace Pool

variable {S S' : Set Expr} {op : Op} {x y : Expr}

theorem mono (hp : Pool k S) (hsub : S' ⊆ S) : Pool k S' := by
  obtain ⟨h, hs⟩ := hp
  exact ⟨h, fun e he => hs e (hsub he)⟩

theorem leaves (k : Nat) (hS : ∀ e ∈ S, ∃ l, e = .leaf l) : Pool k S := by
  refine ⟨fun _ => (.sum, []), fun e he => ?_⟩
  obtain ⟨l, rfl⟩ := hS e he
  exact .leaf l

theorem parts (hp : Pool k S) (op : Op) (hx : x ∈ S) : Pool k (S ∪ { e | e ∈ (x.parts op).2 }) := by
  obtain ⟨h, hs⟩ := hp
  refine ⟨h, fun e he => ?_⟩
  rcases he with he | he
  · exact hs e he
  · exact (hs x hx).of_mem_parts he

/-- A new list is registered under the identity that the supply gives it. -/
theorem group (hp : Pool k S) (op : Op) (flag : Bool) (args : List Expr)
    (hargs : ∀ e ∈ args, e ∈ S) :
    Pool ((group op flag args).run k).2 (insert ((group op flag args).run k).1 S) := by
  obtain ⟨h, hs⟩ := hp
  show Pool (k + 1) (insert (.node op k flag args) S)
  have hold : ∀ e ∈ S, Stored (Function.update h k (op, args)) (k + 1) e := fun e he =>
    (hs e he).mono k.le_succ fun i hi => Function.update_of_ne hi.ne _ _
  refine ⟨Function.update h k (op, args), fun e he => ?_⟩
  rcases he with rfl | he
  · exact .node k.lt_succ_self (Function.update_self k _ h) fun e he => hold e (hargs e he)
  · exact hold e he

theorem invert (hp : Pool k S) (op : Op) (hx : x ∈ S) :
    Pool ((invert op x).run k).2 (insert ((invert op x).run k).1 S) := by
  rcases invert_cases op x with ⟨list, flag, args, rfl, hi⟩ | hi
  · rw [hi]
    obtain ⟨h, hs⟩ := hp
    refine ⟨h, fun e he => ?_⟩
    rcases he with rfl | he
    · cases hs _ hx with
      | node hlist hentry hargs => exact .node hlist hentry hargs
    · exact hs e he
  · rw [hi]
    exact hp.group op true [x] fun e he => List.mem_singleton.mp he ▸ hx

theorem mapM_invert (hp : Pool k S) (op : Op) (es : List Expr) (hes : ∀ e ∈ es, e ∈ S) :
    Pool ((es.mapM (Expr.invert op)).run k).2
      (S ∪ { e | e ∈ ((es.mapM (Expr.invert op)).run k).1 }) := by
  induction es generalizing k S with
  | nil => exact hp.mono (Set.union_subset subset_rfl fun e he => absurd he List.not_mem_nil)
  | cons e es ih =>
    have hinvert := hp.invert op (hes e List.mem_cons_self)
    have hrest := ih hinvert fun e' he' => .inr (hes e' (List.mem_cons_of_mem e he'))
    rw [List.mapM_cons]
    refine hrest.mono fun e' he' => ?_
    rcases he' with he' | he'
    · exact .inl (.inr he')
    · rcases List.mem_cons.mp he' with rfl | he'
      · exact .inl (.inl rfl)
      · exact .inr he'

theorem join (hp : Pool k S) (op : Op) (hx : x ∈ S) (hy : y ∈ S) :
    Pool ((join op x y).run k).2 (insert ((join op x y).run k).1 S) := by
  have hparts := (hp.parts op hx).parts op (.inl hy)
  rcases run_join_cases op x y k with ⟨-, hrun⟩ | ⟨-, hrun⟩
  · rw [hrun]
    refine (hparts.group op _ _ fun e he => ?_).mono
      (Set.insert_subset_insert fun e he => .inl (.inl he))
    rcases List.mem_append.mp he with he | he
    · exact .inl (.inr he)
    · exact .inr he
  · rw [hrun]
    have hinvert := hparts.mapM_invert op (y.parts op).2 fun e he => .inr he
    refine (hinvert.group op _ _ fun e he => ?_).mono
      (Set.insert_subset_insert fun e he => .inl (.inl (.inl he)))
    rcases List.mem_append.mp he with he | he
    · exact .inl (.inl (.inr he))
    · exact .inr he

theorem cancel (hp : Pool k S) (op : Op) (hx : x ∈ S) (hy : y ∈ S) :
    Pool ((cancel op x y).run k).2 (insert ((cancel op x y).run k).1 S) :=
  ((hp.invert op hy).join op (.inr hx) (.inl rfl)).mono
    (Set.insert_subset_insert fun _ he => .inr he)

end Pool

end Expr

end Pivotal
