import Pivotal.Expr.Basic
import Pivotal.Grid
import Std.Data.HashMap

/-!
# Values of expressions

`eval v e` is the value of `e` when cell `k` holds `v k`: the operands are joined from the left,
starting at zero for a sum and at one for a product, and the flag is applied last.

Expressions made by elimination share most of their lists, and `eval` walks through each occurrence.
`evalCached` keeps the value of every list, before the flag, under the identity of the list, and
walks through each list once.  A cache can be handed from one expression to the next; it is of use
only while no cell changes, since an entry is never computed again.
-/

namespace Pivotal.Expr

variable {α : Type u} [Zero α] [One α] [Add α] [Mul α] [Neg α] [Inv α]

/-- Applies the flag of a node. -/
def signed (op : Op) (flag : Bool) (x : α) : α := if flag then op.inverse x else x

mutual

/-- Value of an expression under an assignment of values to cells. -/
def eval (v : Nat → α) : Expr → α
  | .leaf l => v l.cell
  | .node op _ flag args => signed op flag (evalList v op op.unit args)

/-- Joins the values of the operands to `acc`, from the left. -/
def evalList (v : Nat → α) (op : Op) (acc : α) : List Expr → α
  | [] => acc
  | e :: es => evalList v op (op.apply acc (eval v e)) es

end

/-- Values of lists of operands, before the flag, by identity. -/
abbrev Cache (α : Type u) := Std.HashMap Nat α

mutual

/-- Value of an expression, and the cache with the values of the lists met on the way. -/
def evalCached (v : Nat → α) : Expr → Cache α → α × Cache α
  | .leaf l, cache => (v l.cell, cache)
  | .node op list flag args, cache =>
    match cache[list]? with
    | some x => (signed op flag x, cache)
    | none =>
      let (x, cache) := evalListCached v op op.unit args cache
      (signed op flag x, cache.insert list x)

def evalListCached (v : Nat → α) (op : Op) (acc : α) : List Expr → Cache α → α × Cache α
  | [], cache => (acc, cache)
  | e :: es, cache =>
    let (x, cache) := evalCached v e cache
    evalListCached v op (op.apply acc x) es cache

end

/-- Value of an expression, each list computed once. -/
def value (v : Nat → α) (e : Expr) : α := (evalCached v e ∅).1

/-- Values of several expressions with one cache between them, from left to right. -/
def valuesFrom (v : Nat → α) (cache : Cache α) : List Expr → List α
  | [] => []
  | e :: es =>
    let (x, cache) := evalCached v e cache
    x :: valuesFrom v cache es

def values (v : Nat → α) (es : List Expr) : List α := valuesFrom v ∅ es

theorem length_valuesFrom (v : Nat → α) (cache : Cache α) (es : List Expr) :
    (valuesFrom v cache es).length = es.length := by
  induction es generalizing cache with
  | nil => rfl
  | cons e es ih => exact congrArg Nat.succ (ih _)

/-- Values of the entries of a grid with one cache between them, column after column. -/
def gridValues (v : Nat → α) (g : Grid Expr) : Grid α :=
  let flat := values v g.transpose.entries.flatten.toList
  Grid.tabulate g.rows g.cols fun i j =>
    flat.get ⟨j.val * g.rows + i.val, by
      show _ < (valuesFrom v ∅ g.transpose.entries.flatten.toList).length
      rw [length_valuesFrom, Vector.length_toList]
      exact Grid.place_lt j i⟩

end Pivotal.Expr
