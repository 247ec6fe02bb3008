import Pivotal.Proofs.Expr.Sharing

/-!
# Expressions that can be made

`Made k S` says that the expressions of `S` are what some sequence of constructions and operations
has left at hand, with the supply at `k`: leaves, new nodes over expressions at hand, inverses,
joins, differences and quotients, promotions to a sum or a product, and operands taken out of a
node.  Whatever is made shares its lists properly (`Made.pool`).
-/

namespace Pivotal.Expr

variable {k : Nat} {S : Set Expr}

/-! ## The remaining operations keep a pool -/

theorem promote_cases (op : Op) (e : Expr) :
    (∃ list flag args, e = .node op list flag args ∧ promote op e = pure e) ∨
      promote op e = group op false [e] := by
  cases e with
  | leaf l => exact .inr rfl
  | node o list flag args =>
    by_cases ho : o = op
    · subst ho
      exact .inl ⟨list, flag, args, rfl, by simp only [promote, if_true]⟩
    · exact .inr (by simp only [promote, if_neg ho])

theorem Pool.promote (hp : Pool k S) (op : Op) {x : Expr} (hx : x ∈ S) :
    Pool ((promote op x).run k).2 (insert ((promote op x).run k).1 S) := by
  rcases promote_cases op x with ⟨list, flag, args, rfl, hi⟩ | hi
  · rw [hi]
    exact hp.mono (Set.insert_subset hx subset_rfl)
  · rw [hi]
    exact hp.group op false [x] fun e he => List.mem_singleton.mp he ▸ hx

theorem Pool.operand (hp : Pool k S) {x e : Expr} (hx : x ∈ S) (he : e ∈ x.args) :
    Pool k (insert e S) := by
  obtain ⟨h, hs⟩ := hp
  refine ⟨h, fun e' he' => ?_⟩
  rcases he' with rfl | he'
  · cases hs x hx with
    | leaf l => exact absurd he List.not_mem_nil
    | node _ _ hargs => exact hargs e' he
  · exact hs e' he'

/-! ## Sequences of operations -/

/-- The expressions of `S` are at hand after some sequence of constructions and operations, and the
supply stands at `k`. -/
inductive Made : Nat → Set Expr → Prop
  | nothing : Made 0 ∅
  | leaf {k : Nat} {S : Set Expr} (hm : Made k S) (l : Leaf) : Made k (insert (.leaf l) S)
  | group {k : Nat} {S : Set Expr} (hm : Made k S) (op : Op) (flag : Bool) (args : List Expr)
      (hargs : ∀ e ∈ args, e ∈ S) :
      Made ((Expr.group op flag args).run k).2 (insert ((Expr.group op flag args).run k).1 S)
  | invert {k : Nat} {S : Set Expr} (hm : Made k S) (op : Op) {x : Expr} (hx : x ∈ S) :
      Made ((Expr.invert op x).run k).2 (insert ((Expr.invert op x).run k).1 S)
  | join {k : Nat} {S : Set Expr} (hm : Made k S) (op : Op) {x y : Expr} (hx : x ∈ S) (hy : y ∈ S) :
      Made ((Expr.join op x y).run k).2 (insert ((Expr.join op x y).run k).1 S)
  | cancel {k : Nat} {S : Set Expr} (hm : Made k S) (op : Op) {x y : Expr} (hx : x ∈ S)
      (hy : y ∈ S) :
      Made ((Expr.cancel op x y).run k).2 (insert ((Expr.cancel op x y).run k).1 S)
  | promote {k : Nat} {S : Set Expr} (hm : Made k S) (op : Op) {x : Expr} (hx : x ∈ S) :
      Made ((Expr.promote op x).run k).2 (insert ((Expr.promote op x).run k).1 S)
  | operand {k : Nat} {S : Set Expr} (hm : Made k S) {x e : Expr} (hx : x ∈ S) (he : e ∈ x.args) :
      Made k (insert e S)

/-- However expressions were made, an identity stands for one list under one operation. -/
theorem Made.pool (hm : Made k S) : Pool k S := by
  induction hm with
  | nothing => exact Pool.leaves 0 fun e he => absurd he (Set.notMem_empty e)
  | leaf _ l ih =>
    obtain ⟨h, hs⟩ := ih
    refine ⟨h, fun e he => ?_⟩
    rcases he with rfl | he
    · exact .leaf l
    · exact hs e he
  | group _ op flag args hargs ih => exact ih.group op flag args hargs
  | invert _ op hx ih => exact ih.invert op hx
  | join _ op hx hy ih => exact ih.join op hx hy
  | cancel _ op hx hy ih => exact ih.cancel op hx hy
  | promote _ op hx ih => exact ih.promote op hx
  | operand _ hx he ih => exact ih.operand hx he

end Pivotal.Expr
