import Pivotal.Proofs.Expr.Counting

/-!
# What operations add

A `Stock` is a pool whose lists together weigh at most a known total.  A count that visits each list
once never exceeds that total (`Stock.distinctCount_le`), whichever of the lists are still in use, so
it is enough to know what each operation adds.

The weight of a new list depends on how many leaves its operands have, and its depth on their depth.
`Fits op d l e` bounds both for the operands that `e` brings into a node of `op`.  `Light d e` does so
for either operation at once, and it is what the operations of an elimination keep:

* a quotient of expressions that are no products is one deeper (`Stock.quotient`);
* a difference with a product of two is three deeper (`Stock.difference`).

Either of them adds at most nine to the total.
-/

namespace Pivotal.Expr

variable {k total d l m : Nat} {S S' : Set Expr} {op : Op} {x y z e : Expr}

/-! ## Stocks -/

/-- The expressions of `S` share their lists under identities given out before `k`, and all lists
given out so far weigh at most `total`. -/
def Stock (k total : Nat) (S : Set Expr) : Prop :=
  ∃ h, (∀ e ∈ S, Stored h k e) ∧ ∑ i ∈ Finset.range k, weight (h i).2 ≤ total

namespace Stock

theorem mono (hst : Stock k total S) (hsub : S' ⊆ S) {total' : Nat} (hle : total ≤ total') :
    Stock k total' S' := by
  obtain ⟨h, hs, hw⟩ := hst
  exact ⟨h, fun e he => hs e (hsub he), hw.trans hle⟩

theorem leaves (hS : ∀ e ∈ S, ∃ l, e = .leaf l) : Stock 0 0 S := by
  refine ⟨fun _ => (.sum, []), fun e he => ?_, le_rfl⟩
  obtain ⟨l, rfl⟩ := hS e he
  exact .leaf l

theorem parts (hst : Stock k total S) (op : Op) (hx : x ∈ S) :
    Stock k total (S ∪ { e | e ∈ (x.parts op).2 }) := by
  obtain ⟨h, hs, hw⟩ := hst
  refine ⟨h, fun e he => ?_, hw⟩
  rcases he with he | he
  · exact hs e he
  · exact (hs x hx).of_mem_parts he

/-- A new list adds its weight. -/
theorem group (hst : Stock k total S) (op : Op) (flag : Bool) (args : List Expr)
    (hargs : ∀ e ∈ args, e ∈ S) :
    Stock (k + 1) (total + weight args) (insert (.node op k flag args) S) := by
  obtain ⟨h, hs, hw⟩ := hst
  have hold : ∀ e ∈ S, Stored (Function.update h k (op, args)) (k + 1) e := fun e he =>
    (hs e he).mono k.le_succ fun i hi => Function.update_of_ne hi.ne _ _
  refine ⟨Function.update h k (op, args), fun e he => ?_, ?_⟩
  · rcases he with rfl | he
    · exact .node k.lt_succ_self (Function.update_self k _ h) fun e he => hold e (hargs e he)
    · exact hold e he
  · have hsame : ∀ i ∈ Finset.range k,
        weight (Function.update h k (op, args) i).2 = weight (h i).2 := by
      intro i hi
      rw [Function.update_of_ne (Finset.mem_range.mp hi).ne]
    rw [Finset.sum_range_succ, Finset.sum_congr rfl hsame, Function.update_self]
    exact Nat.add_le_add_right hw _

/-- Counted once, the lists of an expression weigh no more than all lists. -/
theorem distinctCount_le (hst : Stock k total S) (he : e ∈ S) : e.distinctCount ≤ 1 + total := by
  obtain ⟨h, hs, hw⟩ := hst
  have hsub : e.lists.toFinset ⊆ Finset.range k := fun i hi =>
    Finset.mem_range.mpr ((hs e he).lt_of_mem_lists (List.mem_toFinset.mp hi))
  have hle : ∑ i ∈ e.lists.toFinset, weight (h i).2 ≤ total :=
    (Finset.sum_le_sum_of_subset hsub).trans hw
  rw [(hs e he).distinctCount_eq]
  exact Nat.add_le_add List.countP_le_length hle

end Stock

/-! ## Operands -/

/-- The expression is a node of this operation. -/
def isOf (op : Op) : Expr → Bool
  | .leaf _ => false
  | .node o _ _ _ => o = op

theorem parts_of_not_isOf (he : e.isOf op = false) : e.parts op = (false, [e]) := by
  cases e with
  | leaf l => rfl
  | node o list flag args =>
    have ho : o ≠ op := of_decide_eq_false he
    simp only [parts, if_neg ho]

theorem invert_of_not_isOf (he : e.isOf op = false) : invert op e = group op true [e] := by
  cases e with
  | leaf l => rfl
  | node o list flag args =>
    have ho : o ≠ op := of_decide_eq_false he
    simp only [invert, if_neg ho]

theorem parts_node (op : Op) (list : Nat) (flag : Bool) (args : List Expr) :
    parts op (.node op list flag args) = (flag, args) := if_pos rfl

theorem depthList_append (es es' : List Expr) :
    depthList (es ++ es') = max (depthList es) (depthList es') := by
  induction es with
  | nil => simp [depthList]
  | cons e es ih => rw [List.cons_append, depthList, ih, depthList, max_assoc]

theorem depthList_singleton (e : Expr) : depthList [e] = e.depth := by
  rw [depthList, depthList, Nat.max_zero]

/-- In a node of `op` the expression stands for its operands: without a flag, at most `l` leaves among
them, none deeper than `d`. -/
structure Fits (op : Op) (d l : Nat) (e : Expr) : Prop where
  flag : (e.parts op).1 = false
  depth : depthList (e.parts op).2 ≤ d
  leaves : (e.parts op).2.countP isLeaf ≤ l

theorem Fits.mono (hf : Fits op d l e) {d' l' : Nat} (hd : d ≤ d') (hl : l ≤ l') :
    Fits op d' l' e :=
  ⟨hf.flag, hf.depth.trans hd, hf.leaves.trans hl⟩

theorem fits_of_not_isOf (he : e.isOf op = false) (hd : e.depth ≤ d) : Fits op d 1 e := by
  have hparts := parts_of_not_isOf he
  refine ⟨by rw [hparts], ?_, ?_⟩
  · rw [hparts, depthList_singleton]
    exact hd
  · rw [hparts]
    exact List.countP_le_length

theorem fits_node {list : Nat} {args : List Expr} (hd : depthList args ≤ d)
    (hl : args.countP isLeaf ≤ l) : Fits op d l (.node op list false args) := by
  refine ⟨by rw [parts_node], ?_, ?_⟩
  · rw [parts_node]
    exact hd
  · rw [parts_node]
    exact hl

/-- Joining expressions whose flags agree makes one list. -/
theorem run_join {flag : Bool} (hx : (x.parts op).1 = flag) (hy : (y.parts op).1 = flag) (k : Nat) :
    (join op x y).run k = (.node op k flag ((x.parts op).2 ++ (y.parts op).2), k + 1) := by
  rcases run_join_cases op x y k with ⟨-, hrun⟩ | ⟨hflag, -⟩
  · rw [hrun, hx]
    rfl
  · rw [hx, hy] at hflag
    exact absurd hflag.symm (Bool.not_ne_self flag)

/-- Joining with the inverse of another kind of expression makes three lists: the inverse, which is
merged at once, the inverse of its only operand, and the joined list. -/
theorem run_cancel (hx : (x.parts op).1 = false) (hy : y.isOf op = false) (k : Nat) :
    (cancel op x y).run k =
      (.node op (k + 2) false ((x.parts op).2 ++ [.node op (k + 1) true [y]]), k + 3) := by
  have hinverse := invert_of_not_isOf hy
  unfold cancel join
  generalize x.parts op = p at hx ⊢
  obtain ⟨flag, xs⟩ := p
  subst hx
  rw [hinverse]
  show ((do
    let ys ← if (parts op (.node op k true [y])).1 = false then
        pure (parts op (.node op k true [y])).2
      else (parts op (.node op k true [y])).2.mapM (invert op)
    Expr.group op false (xs ++ ys)) : Supply Expr).run (k + 1) = _
  rw [parts_node, if_neg Bool.noConfusion, List.mapM_cons, List.mapM_nil, hinverse]
  rfl

namespace Stock

theorem join (hst : Stock k total S) (hx : x ∈ S) (hy : y ∈ S) (hfx : (x.parts op).1 = false)
    (hfy : (y.parts op).1 = false) :
    Stock ((join op x y).run k).2 (total + weight ((x.parts op).2 ++ (y.parts op).2))
      (insert ((join op x y).run k).1 S) := by
  rw [run_join hfx hfy]
  refine (((hst.parts op hx).parts op (.inl hy)).group op false _ fun e he => ?_).mono
    (Set.insert_subset_insert fun e he => .inl (.inl he)) le_rfl
  rcases List.mem_append.mp he with he | he
  · exact .inl (.inr he)
  · exact .inr he

theorem cancel (hst : Stock k total S) (hx : x ∈ S) (hy : y ∈ S) (hfx : (x.parts op).1 = false)
    (hfy : y.isOf op = false) :
    Stock ((cancel op x y).run k).2
      (total + 2 * weight [y] + (1 + (x.parts op).2.countP isLeaf))
      (insert ((cancel op x y).run k).1 S) := by
  have hsingle : ∀ {T : Set Expr}, y ∈ T → ∀ e ∈ [y], e ∈ T :=
    fun hT e he => List.mem_singleton.mp he ▸ hT
  have hinverses := ((hst.parts op hx).group op true [y] (hsingle (.inl hy))).group op true [y]
    (hsingle (.inr (.inl hy)))
  have hjoined := hinverses.group op false ((x.parts op).2 ++ [.node op (k + 1) true [y]])
    fun e he => by
    rcases List.mem_append.mp he with he | he
    · exact .inr (.inr (.inr he))
    · exact .inl (List.mem_singleton.mp he)
  rw [run_cancel hfx hfy]
  refine hjoined.mono (Set.insert_subset_insert fun e he => .inr (.inr (.inl he))) (le_of_eq ?_)
  have hleaves : ((x.parts op).2 ++ [Expr.node op (k + 1) true [y]]).countP isLeaf =
      (x.parts op).2.countP isLeaf := List.countP_append
  rw [weight, weight, hleaves]
  omega

end Stock

/-! ## Quotients and differences -/

/-- Whether it enters a product or a sum, the expression brings no flag, few leaves and bounded
depth. -/
structure Light (d : Nat) (e : Expr) : Prop where
  product : Fits .product d 2 e
  sum : Fits .sum (d + 1) 1 e

namespace Light

theorem mono (he : Light d e) {d' : Nat} (hd : d ≤ d') : Light d' e :=
  ⟨he.product.mono hd le_rfl, he.sum.mono (Nat.add_le_add_right hd 1) le_rfl⟩

theorem leaf (l : Leaf) : Light 1 (.leaf l) := by
  have hdepth : depth (.leaf l) ≤ 1 := by rw [depth]
  exact ⟨(fits_of_not_isOf rfl hdepth).mono le_rfl (by omega),
    (fits_of_not_isOf rfl hdepth).mono (by omega) le_rfl⟩

theorem sumNode {list : Nat} {args : List Expr} (hd : depthList args ≤ d)
    (hl : args.countP isLeaf ≤ 1) : Light (d + 1) (.node .sum list false args) := by
  refine ⟨(fits_of_not_isOf rfl ?_).mono le_rfl (by omega), (fits_node hd hl).mono (by omega) le_rfl⟩
  rw [depth]
  omega

theorem productNode {list : Nat} {args : List Expr} (hd : depthList args ≤ d)
    (hl : args.countP isLeaf ≤ 2) : Light d (.node .product list false args) := by
  refine ⟨fits_node hd hl, fits_of_not_isOf rfl ?_⟩
  rw [depth]
  omega

theorem depth_le_of_not_isOf (he : Light d e) (hp : e.isOf .product = false) : e.depth ≤ d := by
  have hd := he.product.depth
  rwa [parts_of_not_isOf hp, depthList_singleton] at hd

theorem depth_le (he : Light d e) : e.depth ≤ d + 1 := by
  rcases parts_cases .product e with ⟨list, flag, args, rfl, hparts⟩ | hparts
  · have hd : depthList args ≤ d := by
      have h := he.product.depth
      rwa [hparts] at h
    rw [depth]
    omega
  · have hd := he.product.depth
    rw [hparts, depthList_singleton] at hd
    omega

end Light

theorem weight_singleton_le (e : Expr) : weight [e] ≤ 2 :=
  Nat.add_le_add_left List.countP_le_length 1

/-- Dividing what is no product by what is no product. -/
theorem Stock.quotient (hst : Stock k total S) (hx : x ∈ S) (hy : y ∈ S) (hlx : Light d x)
    (hly : Light d y) (hpx : x.isOf .product = false) (hpy : y.isOf .product = false) :
    Stock ((Expr.cancel .product x y).run k).2 (total + 9)
        (insert ((Expr.cancel .product x y).run k).1 S) ∧
      Light (d + 1) ((Expr.cancel .product x y).run k).1 := by
  have hdx := hlx.depth_le_of_not_isOf hpx
  have hdy := hly.depth_le_of_not_isOf hpy
  have hparts := parts_of_not_isOf hpx
  have hflag : (x.parts .product).1 = false := hlx.product.flag
  constructor
  · refine (hst.cancel hx hy hflag hpy).mono subset_rfl ?_
    have hw := weight_singleton_le y
    have hl := hlx.product.leaves
    omega
  · rw [run_cancel hflag hpy, hparts]
    refine .productNode ?_ List.countP_le_length
    rw [List.singleton_append, depthList, depthList_singleton, depth, depthList_singleton]
    omega

/-- Subtracting the product of two expressions. -/
theorem Stock.difference (hst : Stock k total S) (hx : x ∈ S) (hy : y ∈ S) (hz : z ∈ S)
    (hlx : Light d x) (hly : Light d y) (hlz : Light d z) :
    let made := (do Expr.cancel .sum x (← Expr.join .product y z) : Supply Expr).run k
    Stock made.2 (total + 9) (insert made.1 S) ∧ Light (d + 3) made.1 ∧
      made.1.isOf .product = false := by
  have hrun : (do Expr.cancel .sum x (← Expr.join .product y z) : Supply Expr).run k =
      (Expr.cancel .sum x ((Expr.join .product y z).run k).1).run
        ((Expr.join .product y z).run k).2 := rfl
  have hproduct := hst.join hy hz hly.product.flag hlz.product.flag
  rw [hrun]
  rw [run_join hly.product.flag hlz.product.flag] at hproduct ⊢
  have hcancel := hproduct.cancel (.inr hx) (.inl rfl) hlx.sum.flag rfl
  have hleaves : ((y.parts .product).2 ++ (z.parts .product).2).countP isLeaf ≤ 4 := by
    have hy := hly.product.leaves
    have hz := hlz.product.leaves
    rw [List.countP_append]
    omega
  have hdepth : depthList ((y.parts .product).2 ++ (z.parts .product).2) ≤ d := by
    rw [depthList_append]
    exact max_le hly.product.depth hlz.product.depth
  refine ⟨hcancel.mono (Set.insert_subset_insert (Set.subset_insert _ _)) ?_, ?_, ?_⟩
  · have hl := hlx.sum.leaves
    rw [weight, weight, show [Expr.node .product k false _].countP isLeaf = 0 from rfl]
    omega
  · rw [run_cancel hlx.sum.flag rfl]
    refine .sumNode ?_ ?_
    · have hd := hlx.sum.depth
      rw [depthList_append, depthList_singleton, depth, depthList_singleton, depth]
      omega
    · rw [List.countP_append]
      exact hlx.sum.leaves
  · rw [run_cancel hlx.sum.flag rfl]
    rfl

end Pivotal.Expr
