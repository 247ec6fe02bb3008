import Mathlib.Algebra.Field.Rat
import Pivotal.Expr.Eval
import Pivotal.Proofs.Expr.Construction

/-!
# Evaluation with a cache

A cache may come from anywhere: it may be empty, left over from other expressions, or stale because
cells have changed since.  `evalOver v base` says what an expression is worth with the cache `base`:
the plain value, except that a list with an entry in `base` is worth that entry.  `Met base e` holds
of the lists below `e` on paths without such entries, the ones evaluation has to compute.

While expressions are evaluated the cache grows, and the next list is looked up in what it has become
and not in `base`.  `Grown v h base cache` is what every cache on the way has in common, `h` being the
register of lists: the entries of `base` are unchanged, every other entry is the value of its list
over `base`, and the cache is closed, so that nothing that was to be computed is missed when a list
is found.

* `evalCached_grown`, `evalListCached_grown`: one evaluation, its value and its new keys;
* `Pool.value_eq_eval`, `Pool.values_eq_map`, `Pool.gridValues_eq_map`: from the empty cache, one
  cache between any number of expressions gives each its plain value;
* `evalCached_exact`: all of it, for every expression that can be made and every cache.
-/

namespace Pivotal.Expr

/-! ## What an expression is worth over a cache -/

section Over

variable {α : Type u} [Zero α] [One α] [Add α] [Mul α] [Neg α] [Inv α]

mutual

/-- The plain value of an expression, except that a list with an entry in `base` is worth that
entry. -/
def evalOver (v : Nat → α) (base : Cache α) : Expr → α
  | .leaf l => v l.cell
  | .node op list flag args =>
    signed op flag (base[list]?.getD (evalListOver v base op op.unit args))

/-- Joins the values of the operands over `base` to `acc`, from the left. -/
def evalListOver (v : Nat → α) (base : Cache α) (op : Op) (acc : α) : List Expr → α
  | [] => acc
  | e :: es => evalListOver v base op (op.apply acc (evalOver v base e)) es

end

end Over

/-- `Met base e list op args`: below `e`, on a path that meets no list with an entry in `base`,
stands the list `args` of operands of `op`, identified by `list`. -/
inductive Met {α : Type u} (base : Cache α) : Expr → Nat → Op → List Expr → Prop
  | here {op : Op} {list : Nat} {flag : Bool} {args : List Expr} (hnew : list ∉ base) :
      Met base (.node op list flag args) list op args
  | under {op o : Op} {list i : Nat} {flag : Bool} {args es : List Expr} {e : Expr}
      (hnew : list ∉ base) (he : e ∈ args) (hmet : Met base e i o es) :
      Met base (.node op list flag args) i o es

variable {α : Type u} {base cache : Cache α} {h : Nat → Op × List Expr} {k : Nat}

theorem Met.notMem {e : Expr} {i : Nat} {op : Op} {args : List Expr} (hmet : Met base e i op args) :
    i ∉ base := by
  induction hmet with
  | here hnew => exact hnew
  | under _ _ _ ih => exact ih

/-- What is met below a node: nothing if its list has an entry, else its list and what is met below its
operands. -/
theorem exists_met_node_iff {op : Op} {list i : Nat} {flag : Bool} {args : List Expr} :
    (∃ o es, Met base (.node op list flag args) i o es) ↔
      list ∉ base ∧ (list = i ∨ ∃ e ∈ args, ∃ o es, Met base e i o es) := by
  constructor
  · rintro ⟨o, es, hmet⟩
    cases hmet with
    | here hnew => exact ⟨hnew, .inl rfl⟩
    | under hnew he hmet => exact ⟨hnew, .inr ⟨_, he, o, es, hmet⟩⟩
  · rintro ⟨hnew, rfl | ⟨e, he, o, es, hmet⟩⟩
    · exact ⟨op, args, .here hnew⟩
    · exact ⟨o, es, .under hnew he hmet⟩

/-- A list that is met is registered. -/
theorem Met.entry {e : Expr} {i : Nat} {op : Op} {args : List Expr} (hmet : Met base e i op args)
    (hs : Stored h k e) : h i = (op, args) := by
  induction hmet with
  | here _ =>
    cases hs with
    | node _ hentry _ => exact hentry
  | under _ he _ ih =>
    cases hs with
    | node _ _ hargs => exact ih (hargs _ he)

variable [Zero α] [One α] [Add α] [Mul α] [Neg α] [Inv α] {v : Nat → α}

/-- Over the empty cache nothing is worth anything but its plain value. -/
theorem evalListOver_empty_of {args : List Expr}
    (hargs : ∀ e ∈ args, evalOver v ∅ e = eval v e) (op : Op) (acc : α) :
    evalListOver v ∅ op acc args = evalList v op acc args := by
  induction args generalizing acc with
  | nil => rfl
  | cons e es ih =>
    rw [evalListOver, evalList, hargs e List.mem_cons_self]
    exact ih (fun e' he' => hargs e' (List.mem_cons_of_mem e he')) _

theorem evalOver_empty {e : Expr} (hs : Stored h k e) : evalOver v ∅ e = eval v e := by
  induction hs with
  | leaf l => rw [evalOver, eval]
  | @node op list flag args _ _ _ ih =>
    rw [evalOver, eval, Std.HashMap.getElem?_empty, Option.getD_none, evalListOver_empty_of ih]

/-! ## The growing cache -/

/-- What every cache has in common that evaluation over `base` has made so far. -/
structure Grown (v : Nat → α) (h : Nat → Op × List Expr) (base cache : Cache α) : Prop where
  kept : ∀ i ∈ base, cache[i]? = base[i]?
  value : ∀ i ∉ base, ∀ x, cache[i]? = some x →
    x = evalListOver v base (h i).1 (h i).1.unit (h i).2
  closed : ∀ i ∉ base, i ∈ cache → ∀ e ∈ (h i).2, ∀ j op args, Met base e j op args → j ∈ cache

namespace Grown

theorem refl (v : Nat → α) (h : Nat → Op × List Expr) (base : Cache α) : Grown v h base base where
  kept _ _ := rfl
  value _ hi _ hx := absurd (Std.HashMap.mem_iff_isSome_getElem?.mpr (hx ▸ rfl)) hi
  closed _ hi hmem := absurd hmem hi

theorem getElem?_of_mem (hg : Grown v h base cache) {i : Nat} {op : Op} {args : List Expr}
    (hi : i ∉ base) (hentry : h i = (op, args)) (hmem : i ∈ cache) :
    cache[i]? = some (evalListOver v base op op.unit args) := by
  obtain ⟨x, hx⟩ := Option.isSome_iff_exists.mp (Std.HashMap.mem_iff_isSome_getElem?.mp hmem)
  have hvalue := hg.value i hi x hx
  rw [hentry] at hvalue
  rw [hx, hvalue]

/-- A list enters the cache once everything below it is there. -/
theorem insert (hg : Grown v h base cache) {list : Nat} {op : Op} {args : List Expr}
    (hnew : list ∉ base) (hentry : h list = (op, args))
    (hbelow : ∀ e ∈ args, ∀ j o es, Met base e j o es → j ∈ cache) :
    Grown v h base (Std.HashMap.insert cache list (evalListOver v base op op.unit args)) where
  kept i hi := by
    have hne : list ≠ i := fun heq => hnew (heq ▸ hi)
    rw [Std.HashMap.getElem?_insert, beq_false_of_ne hne, ← hg.kept i hi]
    rfl
  value i hi x hx := by
    rw [Std.HashMap.getElem?_insert] at hx
    split at hx
    · next heq =>
      cases hx
      rw [← eq_of_beq heq, hentry]
    · exact hg.value i hi x hx
  closed i hi hmem e he j o es hmet := by
    rw [Std.HashMap.mem_insert] at hmem ⊢
    right
    by_cases heq : list = i
    · rw [← heq, hentry] at he
      exact hbelow e he j o es hmet
    · rcases hmem with hmem | hmem
      · exact absurd (eq_of_beq hmem) heq
      · exact hg.closed i hi hmem e he j o es hmet

end Grown

/-! ## One evaluation -/

/-- What one evaluation does with a grown cache. -/
def Evaluates (v : Nat → α) (h : Nat → Op × List Expr) (base : Cache α) (e : Expr) : Prop :=
  ∀ cache, Grown v h base cache →
    (evalCached v e cache).1 = evalOver v base e ∧
    Grown v h base (evalCached v e cache).2 ∧
    ∀ i, i ∈ (evalCached v e cache).2 ↔ i ∈ cache ∨ ∃ op args, Met base e i op args

/-- The fold over a list of operands, given what evaluation does to each of them. -/
theorem evalListCached_grown {args : List Expr} (hargs : ∀ e ∈ args, Evaluates v h base e)
    (op : Op) (acc : α) (cache : Cache α) (hg : Grown v h base cache) :
    (evalListCached v op acc args cache).1 = evalListOver v base op acc args ∧
      Grown v h base (evalListCached v op acc args cache).2 ∧
      ∀ i, i ∈ (evalListCached v op acc args cache).2 ↔
        i ∈ cache ∨ ∃ e ∈ args, ∃ o es, Met base e i o es := by
  induction args generalizing acc cache with
  | nil => exact ⟨rfl, hg, fun i => ⟨.inl, by rintro (hi | ⟨e, he, _⟩) <;> [exact hi; cases he]⟩⟩
  | cons e es ih =>
    obtain ⟨hvalue, hgrown, hkeys⟩ := hargs e List.mem_cons_self cache hg
    obtain ⟨hvalues, hgrowns, hkeyss⟩ := ih (fun e' he' => hargs e' (List.mem_cons_of_mem e he'))
      (op.apply acc (evalCached v e cache).1) _ hgrown
    refine ⟨?_, hgrowns, fun i => ?_⟩
    · rw [evalListCached, evalListOver, ← hvalue]
      exact hvalues
    · rw [evalListCached]
      refine (hkeyss i).trans ?_
      rw [hkeys i, or_assoc]
      simp only [List.mem_cons, exists_eq_or_imp]

theorem evalCached_grown {e : Expr} (hs : Stored h k e) : Evaluates v h base e := by
  induction hs with
  | leaf l =>
    intro cache hg
    rw [evalCached, evalOver]
    refine ⟨rfl, hg, fun i => ⟨.inl, ?_⟩⟩
    rintro (hi | ⟨op, args, hmet⟩)
    · exact hi
    · cases hmet
  | @node op list flag args _ hentry _ ih =>
    intro cache hg
    simp only [exists_met_node_iff]
    rw [evalCached, evalOver]
    by_cases hbase : list ∈ base
    · -- The entry was there from the start, so nothing below the node is met.
      obtain ⟨x, hx⟩ := Option.isSome_iff_exists.mp (Std.HashMap.mem_iff_isSome_getElem?.mp hbase)
      rw [hg.kept list hbase, hx]
      exact ⟨rfl, hg, fun i => ⟨.inl, fun hi => hi.resolve_right fun hmet => hmet.1 hbase⟩⟩
    · have hnone : base[list]? = none := Std.HashMap.getElem?_eq_none hbase
      rw [hnone, Option.getD_none]
      by_cases hcache : list ∈ cache
      · -- The list was met before, and everything below it with it.
        rw [hg.getElem?_of_mem hbase hentry hcache]
        refine ⟨rfl, hg, fun i => ⟨.inl, ?_⟩⟩
        rintro (hi | ⟨-, rfl | ⟨e, he, o, es, hmet⟩⟩)
        · exact hi
        · exact hcache
        · exact hg.closed list hbase hcache e (by rw [hentry]; exact he) i o es hmet
      · rw [Std.HashMap.getElem?_eq_none hcache]
        obtain ⟨hvalue, hgrown, hkeys⟩ := evalListCached_grown ih op op.unit cache hg
        refine ⟨congrArg (signed op flag) hvalue, ?_, fun i => ?_⟩
        · have hinsert := hgrown.insert hbase hentry fun e he j o es hmet =>
            (hkeys j).mpr (.inr ⟨e, he, o, es, hmet⟩)
          rwa [← hvalue] at hinsert
        · show i ∈ Std.HashMap.insert _ _ _ ↔ _
          rw [Std.HashMap.mem_insert, hkeys i, beq_iff_eq, or_left_comm, and_iff_right hbase]

/-! ## One cache for several expressions -/

theorem valuesFrom_eq {es : List Expr} (hs : ∀ e ∈ es, Stored h k e) (cache : Cache α)
    (hg : Grown v h ∅ cache) : valuesFrom v cache es = es.map (eval v) := by
  induction es generalizing cache with
  | nil => rfl
  | cons e es ih =>
    obtain ⟨hvalue, hgrown, -⟩ := evalCached_grown (hs e List.mem_cons_self) cache hg
    have hrest := ih (fun e' he' => hs e' (List.mem_cons_of_mem e he')) _ hgrown
    rw [List.map_cons, ← evalOver_empty (v := v) (hs e List.mem_cons_self), ← hvalue, ← hrest]
    rfl

namespace Pool

variable {S : Set Expr} {x : Expr}

/-- Each list computed once gives what computing every occurrence gives. -/
theorem value_eq_eval (hp : Pool k S) (hx : x ∈ S) (v : Nat → α) : x.value v = x.eval v := by
  obtain ⟨h, hs⟩ := hp
  rw [← evalOver_empty (hs x hx)]
  exact (evalCached_grown (hs x hx) ∅ (Grown.refl v h ∅)).1

/-- One cache between several expressions changes none of their values. -/
theorem values_eq_map (hp : Pool k S) {es : List Expr} (hes : ∀ e ∈ es, e ∈ S) (v : Nat → α) :
    values v es = es.map (eval v) := by
  obtain ⟨h, hs⟩ := hp
  exact valuesFrom_eq (fun e he => hs e (hes e he)) ∅ (Grown.refl v h ∅)

theorem gridValues_eq_map (hp : Pool k S) {g : Grid Expr}
    (hg : ∀ i j, (g.entries.get i).get j ∈ S) (v : Nat → α) : gridValues v g = g.map (eval v) := by
  have hflat : values v g.transpose.entries.flatten.toList =
      g.transpose.entries.flatten.toList.map (eval v) := by
    refine hp.values_eq_map (fun e he => ?_) v
    obtain ⟨row, hrow, hmem⟩ := Vector.mem_flatten.mp (Vector.mem_toList_iff.mp he)
    obtain ⟨j, hj, rfl⟩ := Vector.mem_iff_getElem.mp hrow
    obtain ⟨i, hi, rfl⟩ := Vector.mem_iff_getElem.mp hmem
    have hmem := hg ⟨i, hi⟩ ⟨j, hj⟩
    rw [← g.get_transpose ⟨j, hj⟩ ⟨i, hi⟩] at hmem
    exact hmem
  have hentry : ∀ (i : Fin g.rows) (j : Fin g.cols),
      (values v g.transpose.entries.flatten.toList)[j.val * g.rows + i.val]? =
        some (((g.entries.get i).get j).eval v) := by
    intro i j
    rw [hflat, List.getElem?_map, Vector.getElem?_toList]
    exact congrArg (Option.map (eval v))
      ((Grid.getElem?_flatten g.transpose.entries j i).trans (congrArg some (g.get_transpose j i)))
  show Grid.mk g.rows g.cols _ = Grid.mk g.rows g.cols _
  congr 1
  ext i hi j hj
  simp only [Vector.getElem_ofFn, Vector.getElem_map, List.get_eq_getElem]
  exact Option.some.inj ((List.getElem?_eq_getElem _).symm.trans (hentry ⟨i, hi⟩ ⟨j, hj⟩))

end Pool

/-! ## Every expression, every cache -/

/-- Evaluation with any cache, stale or not, gives the value over that cache, changes no entry of it,
and adds the lists it meets, each with its value before the flag.  From the empty cache the value is
the plain one, also for the entries of a list or a grid that share one cache. -/
theorem evalCached_exact {S : Set Expr} (hm : Made k S) {e : Expr} (he : e ∈ S) (v : Nat → α)
    (base : Cache α) :
    (evalCached v e base).1 = evalOver v base e ∧
      (∀ i ∈ base, (evalCached v e base).2[i]? = base[i]?) ∧
      (∀ i ∉ base, i ∈ (evalCached v e base).2 ↔ ∃ op args, Met base e i op args) ∧
      (∀ i op args, Met base e i op args →
        (evalCached v e base).2[i]? = some (evalListOver v base op op.unit args)) ∧
      e.value v = e.eval v ∧
      (∀ es : List Expr, (∀ x ∈ es, x ∈ S) → values v es = es.map (eval v)) ∧
      ∀ g : Grid Expr, (∀ i j, (g.entries.get i).get j ∈ S) → gridValues v g = g.map (eval v) := by
  have hpool := hm.pool
  obtain ⟨h, hs⟩ := hm.pool
  obtain ⟨hvalue, hgrown, hkeys⟩ := evalCached_grown (hs e he) base (Grown.refl v h base)
  refine ⟨hvalue, hgrown.kept, fun i hi => ?_, fun i op args hmet => ?_, hpool.value_eq_eval he v,
    fun es hes => hpool.values_eq_map hes v, fun g hg => hpool.gridValues_eq_map hg v⟩
  · rw [hkeys i]
    exact ⟨fun h => h.resolve_left hi, .inr⟩
  · exact hgrown.getElem?_of_mem hmet.notMem (hmet.entry (hs e he))
      ((hkeys i).mpr (.inr ⟨op, args, hmet⟩))

/-- The square of `a + a` with `a` at five, over a cache that still holds seven for the sum: the sum
is not computed again, and only the list of the product is added. -/
theorem evalCached_exact_stale :
    let a : Expr := .leaf ⟨none, 0⟩
    let twice : Expr := .node .sum 0 false [a, a]
    let square : Expr := .node .product 1 false [twice, twice]
    let stale : Cache Rat := Std.HashMap.insert ∅ 0 7
    Made 2 (insert square (insert twice (insert a ∅))) ∧
      (evalCached (fun _ => 5) square stale).1 = 49 ∧
      (evalCached (fun _ => 5) square stale).2[0]? = some 7 ∧
      (evalCached (fun _ => 5) square stale).2[1]? = some 49 ∧
      square.value (fun _ => (5 : Rat)) = 100 := by
  intro a twice square stale
  have hmade : Made 2 (insert square (insert twice (insert a ∅))) :=
    ((Made.nothing.leaf ⟨none, 0⟩).group .sum false [a, a] (by simp [a])).join .product
      (x := twice) (y := twice) (.inl rfl) (.inl rfl)
  have hold : stale[0]? = some 7 := Std.HashMap.getElem?_insert_self
  have hnew : 1 ∉ stale := by simp [stale]
  have htwice : evalOver (fun _ => (5 : Rat)) stale twice = 7 := by
    simp only [twice, evalOver, hold]
    rfl
  have hproduct : evalListOver (fun _ => (5 : Rat)) stale .product 1 [twice, twice] = 49 := by
    simp only [evalListOver, htwice]
    decide +kernel
  obtain ⟨hvalue, hkept, -, hadded, hplain, -, -⟩ :=
    evalCached_exact hmade (e := square) (.inl rfl) (fun _ => (5 : Rat)) stale
  refine ⟨hmade, hvalue.trans ?_, (hkept 0 (by simp [stale])).trans hold,
    (hadded 1 .product [twice, twice] (.here hnew)).trans (congrArg some hproduct), hplain.trans ?_⟩
  · simp only [square, evalOver, Std.HashMap.getElem?_eq_none hnew, Option.getD_none]
    exact hproduct
  · decide +kernel

end Pivotal.Expr
