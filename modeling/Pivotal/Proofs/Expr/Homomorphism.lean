import Mathlib.Algebra.Field.Rat
import Pivotal.Proofs.Expr.Caching

/-!
# Evaluation respects the operations

Over a field, with the inverse of zero taken as zero, the value of what an operation builds is that
operation on the values.  Both operations are commutative groups up to the inverse of zero, and that
is all the proofs use, so each is written once for sums and products:

* `eval_parts`: an expression is worth the operands it is taken apart into, under its flag;
* `eval_invert`, `eval_join`, `eval_cancel`: inverse, join and difference or quotient;
* `value_invert`, `value_join`, `value_cancel`: the same of the value with a cache, in a pool.

`value_operations` gathers the operations on sums and products of expressions that can be made.
-/

namespace Pivotal

variable {F : Type*} [Field F]

/-! ## Laws of the two operations -/

namespace Op

theorem apply_assoc (op : Op) (x y z : F) :
    op.apply (op.apply x y) z = op.apply x (op.apply y z) := by
  cases op with
  | sum => exact add_assoc x y z
  | product => exact mul_assoc x y z

theorem unit_apply (op : Op) (x : F) : op.apply op.unit x = x := by
  cases op with
  | sum => exact zero_add x
  | product => exact one_mul x

theorem inverse_inverse (op : Op) (x : F) : op.inverse (op.inverse x) = x := by
  cases op with
  | sum => exact neg_neg x
  | product => exact inv_inv x

theorem inverse_unit (op : Op) : op.inverse (op.unit : F) = op.unit := by
  cases op with
  | sum => exact neg_zero
  | product => exact inv_one

/-- No side condition: zero is its own reciprocal. -/
theorem inverse_apply (op : Op) (x y : F) :
    op.inverse (op.apply x y) = op.apply (op.inverse x) (op.inverse y) := by
  cases op with
  | sum => exact neg_add x y
  | product => exact mul_inv x y

end Op

namespace Expr

variable (v : Nat → F) (op : Op)

/-! ## Flags and lists of operands -/

theorem signed_not (flag : Bool) (x : F) : signed op (!flag) x = op.inverse (signed op flag x) := by
  cases flag with
  | false => rfl
  | true => exact (op.inverse_inverse x).symm

theorem signed_apply (flag : Bool) (x y : F) :
    signed op flag (op.apply x y) = op.apply (signed op flag x) (signed op flag y) := by
  cases flag with
  | false => rfl
  | true => exact op.inverse_apply x y

theorem evalList_acc (acc : F) (es : List Expr) :
    evalList v op acc es = op.apply acc (evalList v op op.unit es) := by
  induction es generalizing acc with
  | nil =>
    simp only [evalList]
    cases op with
    | sum => exact (add_zero acc).symm
    | product => exact (mul_one acc).symm
  | cons e es ih =>
    simp only [evalList]
    rw [ih, ih (op.apply op.unit (eval v e)), op.unit_apply, op.apply_assoc]

theorem evalList_cons (e : Expr) (es : List Expr) :
    evalList v op op.unit (e :: es) = op.apply (e.eval v) (evalList v op op.unit es) := by
  rw [evalList, op.unit_apply, evalList_acc]

theorem evalList_append (xs ys : List Expr) :
    evalList v op op.unit (xs ++ ys) =
      op.apply (evalList v op op.unit xs) (evalList v op op.unit ys) := by
  induction xs with
  | nil => exact (op.unit_apply _).symm
  | cons x xs ih => rw [List.cons_append, evalList_cons, evalList_cons, ih, op.apply_assoc]

/-- One operand is worth itself. -/
theorem evalList_singleton (e : Expr) : evalList v op op.unit [e] = e.eval v :=
  op.unit_apply _

/-- Taking an expression apart for an operation keeps its value. -/
theorem eval_parts (e : Expr) :
    signed op (e.parts op).1 (evalList v op op.unit (e.parts op).2) = e.eval v := by
  rcases parts_cases op e with ⟨list, flag, args, rfl, hp⟩ | hp
  · rw [hp, eval]
  · rw [hp]
    exact evalList_singleton v op e

/-! ## The operations -/

theorem eval_invert (e : Expr) (k : Nat) :
    ((invert op e).run k).1.eval v = op.inverse (e.eval v) := by
  rcases invert_cases op e with ⟨list, flag, args, rfl, hi⟩ | hi
  · rw [hi]
    show signed op (!flag) (evalList v op op.unit args) = _
    rw [signed_not, eval]
  · rw [hi]
    exact congrArg op.inverse (evalList_singleton v op e)

/-- Operands inverted one by one join to the inverse. -/
theorem evalList_mapM_invert (es : List Expr) (k : Nat) :
    evalList v op op.unit ((es.mapM (invert op)).run k).1 =
      op.inverse (evalList v op op.unit es) := by
  induction es generalizing k with
  | nil => exact (op.inverse_unit).symm
  | cons e es ih =>
    rw [List.mapM_cons]
    show evalList v op op.unit (((invert op e).run k).1 ::
      ((es.mapM (invert op)).run ((invert op e).run k).2).1) = _
    rw [evalList_cons, evalList_cons, ih, eval_invert, op.inverse_apply]

theorem eval_join (x y : Expr) (k : Nat) :
    ((join op x y).run k).1.eval v = op.apply (x.eval v) (y.eval v) := by
  rw [← eval_parts v op x, ← eval_parts v op y]
  rcases run_join_cases op x y k with ⟨hflag, hrun⟩ | ⟨hflag, hrun⟩
  · rw [hrun, hflag]
    show signed op (x.parts op).1 (evalList v op op.unit ((x.parts op).2 ++ (y.parts op).2)) = _
    rw [evalList_append, signed_apply]
  · rw [hrun, hflag]
    show signed op (x.parts op).1 (evalList v op op.unit ((x.parts op).2 ++
      (((y.parts op).2.mapM (invert op)).run k).1)) = _
    -- The flags differ, so the flag of `x` undoes the inversion of each operand of `y`.
    rw [evalList_append, signed_apply, evalList_mapM_invert, signed_not]
    cases (x.parts op).1 with
    | false => rfl
    | true => rfl

theorem eval_cancel (x y : Expr) (k : Nat) :
    ((cancel op x y).run k).1.eval v = op.apply (x.eval v) (op.inverse (y.eval v)) := by
  show ((join op x ((invert op y).run k).1).run ((invert op y).run k).2).1.eval v = _
  rw [eval_join, eval_invert]

theorem eval_promote (e : Expr) (k : Nat) : ((promote op e).run k).1.eval v = e.eval v := by
  rcases promote_cases op e with ⟨list, flag, args, rfl, hi⟩ | hi
  · rw [hi]
    rfl
  · rw [hi]
    exact evalList_singleton v op e

/-! ## Values with a cache -/

namespace Pool

variable {k : Nat} {S : Set Expr} {x y : Expr}

theorem value_invert (hp : Pool k S) (op : Op) (hx : x ∈ S) (v : Nat → F) :
    ((Expr.invert op x).run k).1.value v = op.inverse (x.value v) := by
  rw [(hp.invert op hx).value_eq_eval (.inl rfl), hp.value_eq_eval hx, eval_invert]

theorem value_join (hp : Pool k S) (op : Op) (hx : x ∈ S) (hy : y ∈ S) (v : Nat → F) :
    ((Expr.join op x y).run k).1.value v = op.apply (x.value v) (y.value v) := by
  rw [(hp.join op hx hy).value_eq_eval (.inl rfl), hp.value_eq_eval hx, hp.value_eq_eval hy,
    eval_join]

theorem value_cancel (hp : Pool k S) (op : Op) (hx : x ∈ S) (hy : y ∈ S) (v : Nat → F) :
    ((Expr.cancel op x y).run k).1.value v = op.apply (x.value v) (op.inverse (y.value v)) := by
  rw [(hp.cancel op hx hy).value_eq_eval (.inl rfl), hp.value_eq_eval hx, hp.value_eq_eval hy,
    eval_cancel]

theorem value_promote (hp : Pool k S) (op : Op) (hx : x ∈ S) (v : Nat → F) :
    ((Expr.promote op x).run k).1.value v = x.value v := by
  rw [(hp.promote op hx).value_eq_eval (.inl rfl), hp.value_eq_eval hx, eval_promote]

/-- A promotion to a sum or a product first makes no difference to the value of a join. -/
theorem value_join_promote (hp : Pool k S) (op : Op) (hx : x ∈ S) (hy : y ∈ S) (v : Nat → F) :
    ((do Expr.join op (← Expr.promote op x) y : Supply Expr).run k).1.value v =
      op.apply (x.value v) (y.value v) := by
  have hjoin := (hp.promote op hx).value_join op (.inl rfl) (.inr hy) v
  rw [hp.value_promote op hx] at hjoin
  exact hjoin

theorem value_cancel_promote (hp : Pool k S) (op : Op) (hx : x ∈ S) (hy : y ∈ S) (v : Nat → F) :
    ((do Expr.cancel op (← Expr.promote op x) y : Supply Expr).run k).1.value v =
      op.apply (x.value v) (op.inverse (y.value v)) := by
  have hcancel := (hp.promote op hx).value_cancel op (.inl rfl) (.inr hy) v
  rw [hp.value_promote op hx] at hcancel
  exact hcancel

end Pool

/-- The value of what an operation makes is that operation on the values, whatever the kinds, the
flags and the sharing of the expressions; so it is when the first expression is promoted to a sum or
a product before. -/
theorem value_operations {k : Nat} {S : Set Expr} {x y : Expr} (hm : Made k S) (hx : x ∈ S)
    (hy : y ∈ S) (v : Nat → F) :
    (((join .sum x y).run k).1.value v = x.value v + y.value v ∧
        ((cancel .sum x y).run k).1.value v = x.value v - y.value v ∧
        ((join .product x y).run k).1.value v = x.value v * y.value v ∧
        ((cancel .product x y).run k).1.value v = x.value v / y.value v ∧
        ((invert .sum x).run k).1.value v = -x.value v ∧
        ((invert .product x).run k).1.value v = (x.value v)⁻¹) ∧
      ((do join .sum (← promote .sum x) y : Supply Expr).run k).1.value v =
          x.value v + y.value v ∧
        ((do cancel .sum (← promote .sum x) y : Supply Expr).run k).1.value v =
          x.value v - y.value v ∧
        ((do join .product (← promote .product x) y : Supply Expr).run k).1.value v =
          x.value v * y.value v ∧
        ((do cancel .product (← promote .product x) y : Supply Expr).run k).1.value v =
          x.value v / y.value v := by
  have hp := hm.pool
  simp only [sub_eq_add_neg, div_eq_mul_inv]
  exact ⟨⟨hp.value_join .sum hx hy v, hp.value_cancel .sum hx hy v, hp.value_join .product hx hy v,
      hp.value_cancel .product hx hy v, hp.value_invert .sum hx v, hp.value_invert .product hx v⟩,
    hp.value_join_promote .sum hx hy v, hp.value_cancel_promote .sum hx hy v,
    hp.value_join_promote .product hx hy v, hp.value_cancel_promote .product hx hy v⟩

/-- A negated sum less another, and the quotient of the two: the flags of the operands differ, and the
operands of the second are inverted one by one. -/
theorem value_operations_signed :
    let a : Expr := .leaf ⟨none, 0⟩
    let b : Expr := .leaf ⟨none, 1⟩
    let x : Expr := .node .sum 0 true [a, b]
    let y : Expr := .node .sum 1 false [b, b]
    let v : Nat → ℚ := fun cell => if cell = 0 then 2 else 3
    Made 2 (insert y (insert x (insert b (insert a ∅)))) ∧
      ((cancel .sum x y).run 2).1.value v = -11 ∧
      ((cancel .product x y).run 2).1.value v = -5 / 6 := by
  intro a b x y v
  have hmade : Made 2 (insert y (insert x (insert b (insert a ∅)))) :=
    (((Made.nothing.leaf ⟨none, 0⟩).leaf ⟨none, 1⟩).group .sum true [a, b] (by simp [a, b])).group
      .sum false [b, b] (by simp [b])
  obtain ⟨⟨-, hdifference, -, hquotient, -⟩, -⟩ :=
    value_operations hmade (x := x) (y := y) (.inr (.inl rfl)) (.inl rfl) v
  have hx : x.value v = -5 := by
    rw [hmade.pool.value_eq_eval (.inr (.inl rfl))]
    decide +kernel
  have hy : y.value v = 6 := by
    rw [hmade.pool.value_eq_eval (.inl rfl)]
    decide +kernel
  rw [hx, hy] at hdifference hquotient
  exact ⟨hmade, hdifference.trans (by decide +kernel), hquotient⟩

end Expr

end Pivotal
