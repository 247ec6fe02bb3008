import Pivotal.Proofs.Expr.Contents
import Pivotal.Proofs.Expr.Growth

/-!
# Brackets make no difference

A sequence of operands can be joined by one operation in many orders.  Each join merges the lists it
meets, and a list that was merged before is merged again in the next join, so that all brackets
disappear: what is left is one node over the operands that the members of the sequence stand for,
from left to right (`standsFor_build`).

This needs the flags to agree.  A node of the operation stands for its operands under its own flag,
and any other expression for itself without a flag; `StandsFor op flag` says so, and a join of two
that stand under one flag stands under it again (`StandsFor.run_join`).
-/

namespace Pivotal.Expr

/-! ## Bracketings -/

/-- A sequence of at least one operand with its brackets: a binary tree. -/
inductive Bracketing where
  | operand (e : Expr)
  | bracket (left right : Bracketing)

namespace Bracketing

/-- The operands from left to right. -/
def operands : Bracketing → List Expr
  | .operand e => [e]
  | .bracket left right => left.operands ++ right.operands

/-- Joins the operands as the brackets say. -/
def build (op : Op) : Bracketing → Supply Expr
  | .operand e => pure e
  | .bracket left right => do
    let x ← left.build op
    let y ← right.build op
    join op x y

end Bracketing

/-! ## What an operand stands for -/

/-- `StandsFor op flag e es`: in a node of `op` under this flag, `e` stands for `es`. -/
inductive StandsFor (op : Op) : Bool → Expr → List Expr → Prop
  /-- A node of the operation stands for its operands, under its own flag. -/
  | node (list : Nat) (flag : Bool) (args : List Expr) :
      StandsFor op flag (.node op list flag args) args
  /-- Any other expression stands for itself, without a flag. -/
  | other {e : Expr} (he : e.isOf op = false) : StandsFor op false e [e]

variable {op : Op} {flag : Bool} {x y : Expr} {xs ys : List Expr}

theorem StandsFor.parts_eq (h : StandsFor op flag x xs) : x.parts op = (flag, xs) := by
  cases h with
  | node list => exact parts_node op list flag xs
  | other he => exact parts_of_not_isOf he

theorem StandsFor.run_join (hx : StandsFor op flag x xs) (hy : StandsFor op flag y ys) (k : Nat) :
    (join op x y).run k = (.node op k flag (xs ++ ys), k + 1) := by
  have hflag : (x.parts op).1 = flag := by rw [hx.parts_eq]
  have hflag' : (y.parts op).1 = flag := by rw [hy.parts_eq]
  rw [Expr.run_join hflag hflag', hx.parts_eq, hy.parts_eq]

/-! ## Every bracketing is flattened -/

/-- Whatever the brackets, the joined operands stand for what they stand for one by one; and where
there is a bracket at all, they have become one node. -/
theorem standsFor_build (t : Bracketing) {parts : List (List Expr)}
    (h : List.Forall₂ (StandsFor op flag) t.operands parts) (k : Nat) :
    StandsFor op flag ((t.build op).run k).1 parts.flatten ∧
      (2 ≤ t.operands.length →
        ∃ list, ((t.build op).run k).1 = .node op list flag parts.flatten) := by
  induction t generalizing parts k with
  | operand e =>
    cases h with
    | cons he hrest =>
      cases hrest
      rw [List.flatten_singleton]
      exact ⟨he, fun htwo => absurd htwo (by simp [Bracketing.operands])⟩
  | bracket left right ihl ihr =>
    obtain ⟨ls, rs, rfl, hl, hr⟩ :
        ∃ ls rs, parts = ls ++ rs ∧ List.Forall₂ (StandsFor op flag) left.operands ls ∧
          List.Forall₂ (StandsFor op flag) right.operands rs :=
      ⟨_, _, (List.take_append_drop left.operands.length parts).symm,
        (List.forall₂_take_append _ _ _ h.flip).flip, (List.forall₂_drop_append _ _ _ h.flip).flip⟩
    have hleft := (ihl hl k).1
    have hright := (ihr hr ((left.build op).run k).2).1
    have hnode : (((Bracketing.bracket left right).build op).run k).1 =
        .node op ((right.build op).run ((left.build op).run k).2).2 flag (ls ++ rs).flatten := by
      rw [List.flatten_append]
      exact congrArg Prod.fst (hleft.run_join hright _)
    rw [hnode]
    exact ⟨.node _ flag _, fun _ => ⟨_, rfl⟩⟩

/-- **Brackets make no difference.**  Two or more operands, all nodes of the operation with one flag,
or nodes of it without a flag and other expressions, are joined into one node over what they stand
for, from left to right, under that flag; so any two bracketings of them make the same. -/
theorem bracketings_agree (op : Op) (flag : Bool) (t : Bracketing) (htwo : 2 ≤ t.operands.length)
    {parts : List (List Expr)} (hparts : List.Forall₂ (StandsFor op flag) t.operands parts) :
    (∀ k list, same ((t.build op).run k).1 (.node op list flag parts.flatten) = true) ∧
      ∀ t' : Bracketing, t'.operands = t.operands → ∀ k k',
        same ((t.build op).run k).1 ((t'.build op).run k').1 = true := by
  have hnode : ∀ t' : Bracketing, t'.operands = t.operands → ∀ k list,
      ((t'.build op).run k).1.contents = contents (.node op list flag parts.flatten) := by
    intro t' ht' k list
    rw [← ht'] at hparts htwo
    obtain ⟨list', hbuild⟩ := (standsFor_build t' hparts k).2 htwo
    rw [hbuild, contents_node, contents_node]
  simp only [same_iff]
  exact ⟨hnode t rfl, fun t' ht' k k' => (hnode t rfl k 0).trans (hnode t' ht' k' 0).symm⟩

/-- A leaf, an empty sum, a product and a sum of two, bracketed in the middle and from the right; and
three reciprocals of products, one of them empty, bracketed from the left and from the right. -/
theorem bracketings_agree_mixed :
    let a : Expr := .leaf ⟨some "a", 0⟩
    let b : Expr := .leaf ⟨none, 1⟩
    let empty : Expr := .node .sum 0 false []
    let product : Expr := .node .product 1 false [a, b]
    let pair : Expr := .node .sum 2 false [b, product]
    let left : Bracketing := .bracket (.bracket (.operand a) (.operand empty))
      (.bracket (.operand product) (.operand pair))
    let right : Bracketing := .bracket (.operand a)
      (.bracket (.operand empty) (.bracket (.operand product) (.operand pair)))
    let under (list : Nat) (args : List Expr) : Bracketing := .operand (.node .product list true args)
    (same ((left.build .sum).run 3).1 (.node .sum 9 false [a, product, b, product]) = true ∧
        same ((left.build .sum).run 3).1 ((right.build .sum).run 3).1 = true) ∧
      same (((Bracketing.bracket (.bracket (under 4 [a, b]) (under 5 [])) (under 6 [pair])).build
          .product).run 7).1
        (((Bracketing.bracket (under 4 [a, b]) (.bracket (under 5 []) (under 6 [pair]))).build
          .product).run 7).1 = true := by
  intro a b empty product pair left right under
  have hsums := bracketings_agree .sum false left (by decide)
    (.cons (.other rfl) (.cons (.node 0 false []) (.cons (.other rfl)
      (.cons (.node 2 false [b, product]) .nil))))
  have hproducts := bracketings_agree .product true
    (.bracket (.bracket (under 4 [a, b]) (under 5 [])) (under 6 [pair])) (by decide)
    (.cons (.node 4 true [a, b]) (.cons (.node 5 true []) (.cons (.node 6 true [pair]) .nil)))
  exact ⟨⟨hsums.1 3 9, hsums.2 right rfl 3 3⟩, hproducts.2 _ rfl 7 7⟩

end Pivotal.Expr
