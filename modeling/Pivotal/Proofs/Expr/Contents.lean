import Pivotal.Expr.Count
import Pivotal.Expr.Text
import Pivotal.Proofs.Expr.Caching
import Pivotal.Proofs.Expr.Counting

/-!
# Equality of contents

Two expressions are the same when they are built alike from the same leaves, whatever identities
their lists have.  `contents` puts every list under one identity, so being the same is having equal
contents (`same_iff`), and what follows about `same` follows by rewriting:

* the value, the text, the number of nodes and the depth of an expression are those of its contents
  (`eval_contents`, `text_contents`, `nodeCount_contents`, `depth_contents`);
* the contents of what an operation makes depend on the contents of its operands only
  (`contents_invert`, `contents_join`, `contents_cancel`).

The value with a cache goes by identities and not by contents; where identities stand for one list
each it is the plain value, and so it does not tell the same expressions apart either.
`same_congruence` gathers all this.
-/

namespace Pivotal.Expr

/-- Induction over expressions with a hypothesis for each operand of a node. -/
theorem operands_induction {P : Expr → Prop} (leaf : ∀ l, P (.leaf l))
    (node : ∀ op list flag args, (∀ e ∈ args, P e) → P (.node op list flag args)) (e : Expr) :
    P e :=
  @Expr.rec P (fun es => ∀ e ∈ es, P e) leaf node (List.forall_mem_nil P)
    (fun _ _ hhead htail => List.forall_mem_cons.mpr ⟨hhead, htail⟩) e

/-! ## Contents -/

mutual

/-- The expression with its lists all under one identity. -/
def contents : Expr → Expr
  | .leaf l => .leaf l
  | .node op _ flag args => .node op 0 flag (contentsList args)

def contentsList : List Expr → List Expr
  | [] => []
  | e :: es => contents e :: contentsList es

end

theorem contentsList_eq_map (es : List Expr) : contentsList es = es.map contents := by
  induction es with
  | nil => rfl
  | cons e es ih => rw [contentsList, ih, List.map_cons]

@[simp] theorem contents_leaf (l : Leaf) : contents (.leaf l) = .leaf l := by
  rw [contents]

@[simp] theorem contents_node (op : Op) (list : Nat) (flag : Bool) (args : List Expr) :
    contents (.node op list flag args) = .node op 0 flag (args.map contents) := by
  rw [contents, contentsList_eq_map]

theorem sameList_iff {xs : List Expr}
    (hxs : ∀ x ∈ xs, ∀ y, same x y = true ↔ x.contents = y.contents) (ys : List Expr) :
    sameList xs ys = true ↔ xs.map contents = ys.map contents := by
  induction xs generalizing ys with
  | nil =>
    cases ys with
    | nil => simp [sameList]
    | cons y ys => simp [sameList]
  | cons x xs ih =>
    obtain ⟨hx, hxs⟩ := List.forall_mem_cons.mp hxs
    cases ys with
    | nil => simp [sameList]
    | cons y ys => rw [sameList, Bool.and_eq_true, hx, ih hxs, List.map_cons, List.map_cons,
        List.cons_eq_cons]

theorem same_iff (x y : Expr) : same x y = true ↔ x.contents = y.contents := by
  induction x using operands_induction generalizing y with
  | leaf l =>
    cases y with
    | leaf m => simp [same]
    | node o list flag args => simp [same]
  | node op list flag args ih =>
    cases y with
    | leaf m => simp [same]
    | node o list' flag' args' =>
      rw [same, Bool.and_eq_true, Bool.and_eq_true, decide_eq_true_iff, beq_iff_eq,
        sameList_iff ih, contents_node, contents_node]
      simp only [Expr.node.injEq, true_and, and_assoc]

/-! ## What contents decide -/

/-- What is computed of a list operand by operand, from something that the contents of each operand
decide, is decided by their contents. -/
theorem fold_map_contents {β : Type u} {γ : Type w} {f : Expr → β} {F : List Expr → γ}
    (step : β → γ → γ) (hcons : ∀ e es, F (e :: es) = step (f e) (F es)) {args : List Expr}
    (hargs : ∀ e ∈ args, f e.contents = f e) : F (args.map contents) = F args := by
  induction args with
  | nil => rfl
  | cons e es ih =>
    obtain ⟨he, hes⟩ := List.forall_mem_cons.mp hargs
    rw [List.map_cons, hcons, hcons, he, ih hes]

theorem eval_contents {α : Type u} [Zero α] [One α] [Add α] [Mul α] [Neg α] [Inv α] (v : Nat → α)
    (e : Expr) : e.contents.eval v = e.eval v := by
  induction e using operands_induction with
  | leaf l => rw [contents_leaf]
  | node op list flag args ih =>
    -- The operands are joined from the left, so what is folded is a function of the start.
    have hlist := fold_map_contents (F := fun es acc => evalList v op acc es)
      (fun x rest acc => rest (op.apply acc x)) (fun e es => by funext acc; rw [evalList]) ih
    rw [contents_node, eval, eval, congrFun hlist op.unit]

theorem text_contents (v : Nat → Complex) (e : Expr) : e.contents.text v = e.text v := by
  induction e using operands_induction with
  | leaf l => rw [contents_leaf]
  | node op list flag args ih =>
    have hlist := fold_map_contents (F := textList v) (· :: ·) (fun e es => by rw [textList]) ih
    rw [contents_node, text, text, hlist, List.isEmpty_map]

theorem nodeCount_contents (e : Expr) : e.contents.nodeCount = e.nodeCount := by
  induction e using operands_induction with
  | leaf l => rw [contents_leaf]
  | node op list flag args ih =>
    have hlist :=
      fold_map_contents (F := nodeCountList) (· + ·) (fun e es => by rw [nodeCountList]) ih
    rw [contents_node, nodeCount, nodeCount, hlist]

theorem depth_contents (e : Expr) : e.contents.depth = e.depth := by
  induction e using operands_induction with
  | leaf l => rw [contents_leaf]
  | node op list flag args ih =>
    have hlist := fold_map_contents (F := depthList) max (fun e es => by rw [depthList]) ih
    rw [contents_node, depth, depth, hlist]

/-! ## Operations on the same expressions -/

variable {x x' y y' : Expr}

/-- The same expressions are of one kind, with the same flag and the same operands. -/
theorem contents_cases (h : x.contents = x'.contents) :
    (∃ l, x = .leaf l ∧ x' = .leaf l) ∨
      ∃ op list list' flag args args', x = .node op list flag args ∧
        x' = .node op list' flag args' ∧ args.map contents = args'.map contents := by
  cases x with
  | leaf l =>
    cases x' with
    | leaf m =>
      rw [contents_leaf, contents_leaf] at h
      exact .inl ⟨l, rfl, h.symm⟩
    | node o list flag args => simp at h
  | node op list flag args =>
    cases x' with
    | leaf m => simp at h
    | node o list' flag' args' =>
      rw [contents_node, contents_node] at h
      obtain ⟨rfl, -, rfl, hargs⟩ := Expr.node.inj h
      exact .inr ⟨op, list, list', flag, args, args', rfl, rfl, hargs⟩

theorem parts_contents (op : Op) (h : x.contents = x'.contents) :
    (x.parts op).1 = (x'.parts op).1 ∧
      (x.parts op).2.map contents = (x'.parts op).2.map contents := by
  rcases contents_cases h with ⟨l, rfl, rfl⟩ | ⟨o, list, list', flag, args, args', rfl, rfl, hargs⟩
  · exact ⟨rfl, rfl⟩
  · by_cases ho : o = op
    · simp only [parts, if_pos ho]
      exact ⟨trivial, hargs⟩
    · simp only [parts, if_neg ho, List.map_cons, List.map_nil, h]
      exact ⟨trivial, trivial⟩

theorem contents_invert (op : Op) (h : x.contents = x'.contents) (k k' : Nat) :
    ((invert op x).run k).1.contents = ((invert op x').run k').1.contents := by
  have hgroup : contents (.node op k true [x]) = contents (.node op k' true [x']) := by
    rw [contents_node, contents_node, List.map_singleton, List.map_singleton, h]
  rcases contents_cases h with ⟨l, rfl, rfl⟩ | ⟨o, list, list', flag, args, args', rfl, rfl, hargs⟩
  · exact hgroup
  · by_cases ho : o = op
    · simp only [invert, if_pos ho]
      show contents (.node o list (!flag) args) = contents (.node o list' (!flag) args')
      rw [contents_node, contents_node, hargs]
    · simp only [invert, if_neg ho]
      exact hgroup

theorem map_contents_mapM_invert (op : Op) {xs ys : List Expr}
    (h : xs.map contents = ys.map contents) (k k' : Nat) :
    ((xs.mapM (invert op)).run k).1.map contents =
      ((ys.mapM (invert op)).run k').1.map contents := by
  induction xs generalizing ys k k' with
  | nil =>
    cases ys with
    | nil => rfl
    | cons y ys => simp at h
  | cons x xs ih =>
    cases ys with
    | nil => simp at h
    | cons y ys =>
      rw [List.map_cons, List.map_cons, List.cons_eq_cons] at h
      rw [List.mapM_cons, List.mapM_cons]
      show contents _ :: List.map contents _ = contents _ :: List.map contents _
      exact List.cons_eq_cons.mpr ⟨contents_invert op h.1 k k', ih h.2 _ _⟩

theorem contents_join (op : Op) (hx : x.contents = x'.contents) (hy : y.contents = y'.contents)
    (k k' : Nat) :
    ((join op x y).run k).1.contents = ((join op x' y').run k').1.contents := by
  obtain ⟨hflag, hxs⟩ := parts_contents op hx
  obtain ⟨hother, hys⟩ := parts_contents op hy
  have hgroup : ∀ {ys ys' : List Expr} (i i' : Nat), ys.map contents = ys'.map contents →
      contents (.node op i (x.parts op).1 ((x.parts op).2 ++ ys)) =
        contents (.node op i' (x'.parts op).1 ((x'.parts op).2 ++ ys')) := by
    intro ys ys' i i' h
    rw [contents_node, contents_node, List.map_append, List.map_append, hflag, hxs, h]
  rcases run_join_cases op x y k with ⟨heq, hrun⟩ | ⟨hne, hrun⟩
  · rcases run_join_cases op x' y' k' with ⟨-, hrun'⟩ | ⟨hne', -⟩
    · rw [hrun, hrun']
      exact hgroup k k' hys
    · rw [hflag, hother, hne'] at heq
      exact absurd heq (Bool.not_ne_self _)
  · rcases run_join_cases op x' y' k' with ⟨heq', -⟩ | ⟨-, hrun'⟩
    · rw [hflag, hother, heq'] at hne
      exact absurd hne.symm (Bool.not_ne_self _)
    · rw [hrun, hrun']
      exact hgroup _ _ (map_contents_mapM_invert op hys k k')

theorem contents_cancel (op : Op) (hx : x.contents = x'.contents) (hy : y.contents = y'.contents)
    (k k' : Nat) :
    ((cancel op x y).run k).1.contents = ((cancel op x' y').run k').1.contents :=
  contents_join op hx (contents_invert op hy k k') _ _

/-! ## The same expressions cannot be told apart -/

/-- Being the same is an equivalence that looks at the contents only: at labels, cells, operations,
flags and the order of operands, and neither at identities nor at what the cells hold.  The same
expressions have the same value at all values of the cells, each list computed once, and the same
text, number of nodes and depth; and every operation makes the same of the same. -/
theorem same_congruence {α : Type u} [Zero α] [One α] [Add α] [Mul α] [Neg α] [Inv α] :
    Equivalence (fun x y : Expr => same x y = true) ∧
      (∀ x y : Expr, same x y = true ↔ x.contents = y.contents) ∧
      (∀ x y : Expr, same x y = true →
        (∀ k k' S S', Made k S → x ∈ S → Made k' S' → y ∈ S' →
          ∀ v : Nat → α, x.value v = y.value v) ∧
        (∀ v, x.text v = y.text v) ∧ x.nodeCount = y.nodeCount ∧ x.depth = y.depth) ∧
      ∀ x x' y y' : Expr, same x x' = true → same y y' = true → ∀ op k k',
        same ((join op x y).run k).1 ((join op x' y').run k').1 = true ∧
        same ((cancel op x y).run k).1 ((cancel op x' y').run k').1 = true ∧
        same ((invert op x).run k).1 ((invert op x').run k').1 = true := by
  simp only [same_iff]
  refine ⟨⟨fun _ => rfl, Eq.symm, Eq.trans⟩, fun _ _ => trivial, fun x y h => ?_, ?_⟩
  · refine ⟨fun k k' S S' hm hx hm' hy v => ?_, fun v => ?_, ?_, ?_⟩
    · rw [hm.pool.value_eq_eval hx, hm'.pool.value_eq_eval hy, ← eval_contents v x, h,
        eval_contents]
    · rw [← text_contents, h, text_contents]
    · rw [← nodeCount_contents, h, nodeCount_contents]
    · rw [← depth_contents, h, depth_contents]
  · intro x x' y y' hx hy op k k'
    exact ⟨contents_join op hx hy k k', contents_cancel op hx hy k k', contents_invert op hx k k'⟩

/-- The square of `a + a` over one list, and the product of two sums `a + a` over lists of their own:
they share no list, and counting each list once tells them apart, but nothing else does. -/
theorem same_congruence_unshared :
    let a : Expr := .leaf ⟨some "a", 0⟩
    let twice (list : Nat) : Expr := .node .sum list false [a, a]
    let x : Expr := .node .product 1 false [twice 0, twice 0]
    let y : Expr := .node .product 4 false [twice 2, twice 3]
    same x y = true ∧ (∀ i ∈ x.lists, i ∉ y.lists) ∧ x.distinctCount = 4 ∧ y.distinctCount = 7 ∧
      (∀ v : Nat → ℚ, x.value v = y.value v) ∧ (∀ v, x.text v = y.text v) ∧
      x.nodeCount = y.nodeCount ∧ x.depth = y.depth ∧
      same ((cancel .sum x y).run 5).1 ((cancel .sum y x).run 5).1 = true := by
  intro a twice x y
  have hmade : Made 5 (insert y (insert (twice 3) (insert (twice 2) (insert x
      (insert (twice 0) (insert a ∅)))))) := by
    have hsquare := ((Made.nothing.leaf ⟨some "a", 0⟩).group .sum false [a, a] (by simp [a])).join
      .product (x := twice 0) (y := twice 0) (.inl rfl) (.inl rfl)
    have hsums := (hsquare.group .sum false [a, a] (by simp [a])).group .sum false [a, a]
      (by simp [a])
    exact hsums.join .product (x := twice 2) (y := twice 3) (.inr (.inl rfl)) (.inl rfl)
  obtain ⟨hequivalence, -, hsame, hoperations⟩ := same_congruence (α := ℚ)
  have hxy : same x y = true := by decide +kernel
  obtain ⟨hvalue, htext, hcount, hdepth⟩ := hsame x y hxy
  refine ⟨hxy, by decide +kernel, by cbv, by cbv,
    hvalue 5 5 _ _ hmade (.inr (.inr (.inr (.inl rfl)))) hmade (.inl rfl), htext, hcount, hdepth,
    (hoperations x y y x hxy (hequivalence.symm hxy) .sum 5 5).2.1⟩

end Pivotal.Expr
