/-!
# Expressions

An expression is a leaf, which reads a value cell, or a node: a sum or a product of a list of
expressions.  A sum may carry a minus, a product a power of minus one, so both are one kind of node
with an operation and a flag for its inverse; what is said of sums holds of products with the other
operation.

Each list of operands has an identity, a number that no other list made by the same supply has.
Flipping the flag of a node keeps its list, so a node and its inverse share it, and anything
computed once for a list can be kept under its identity.
-/

namespace Pivotal

/-- The two operations of the algebra. -/
inductive Op where
  | sum
  | product
  deriving DecidableEq, Repr

namespace Op

variable {α : Type u}

/-- Value of no operands at all. -/
def unit [Zero α] [One α] : Op → α
  | .sum => 0
  | .product => 1

def apply [Add α] [Mul α] : Op → α → α → α
  | .sum, x, y => x + y
  | .product, x, y => x * y

/-- Minus for a sum, the power minus one for a product. -/
def inverse [Neg α] [Inv α] : Op → α → α
  | .sum, x => -x
  | .product, x => x⁻¹

end Op

/-- A leaf: the cell it reads and the name under which it is shown. -/
structure Leaf where
  label : Option String
  cell : Nat
  deriving DecidableEq, Repr

/-- An expression over value cells. -/
inductive Expr where
  | leaf (l : Leaf)
  /-- The operands `args` joined by `op`, inverted when `flag` is set; `list` identifies `args`. -/
  | node (op : Op) (list : Nat) (flag : Bool) (args : List Expr)

/-- Computations that make lists of operands; the state is the next free identity. -/
abbrev Supply := StateM Nat

/-- A fresh identity. -/
def Supply.fresh : Supply Nat := modifyGet fun k => (k, k + 1)

namespace Expr

/-- A node over a new list of operands. -/
def group (op : Op) (flag : Bool) (args : List Expr) : Supply Expr := do
  return .node op (← Supply.fresh) flag args

/-- The flag and the operands of a node of this operation; any other expression counts as its own
single operand. -/
def parts (op : Op) (e : Expr) : Bool × List Expr :=
  match e with
  | .leaf _ => (false, [e])
  | .node o _ flag args => if o = op then (flag, args) else (false, [e])

/-- The expression itself if it is a node of this operation, otherwise a node over it alone. -/
def promote (op : Op) (e : Expr) : Supply Expr :=
  match e with
  | .leaf _ => group op false [e]
  | .node o _ _ _ => if o = op then pure e else group op false [e]

/-- The negative (of a sum) or the reciprocal (of a product): a node of this operation flips its
flag over the same list, any other expression is put into a list first. -/
def invert (op : Op) (e : Expr) : Supply Expr :=
  match e with
  | .leaf _ => group op true [e]
  | .node o list flag args =>
    if o = op then pure (.node o list (!flag) args) else group op true [e]

/-- Joins two expressions by an operation.  Operands of nodes of this operation are merged one level
deep: as they are when the flags agree, inverted one by one when they do not.  The flag of the first
expression is kept. -/
def join (op : Op) (x y : Expr) : Supply Expr := do
  let (flag, xs) := x.parts op
  let (other, ys) := y.parts op
  let ys ← if other = flag then pure ys else ys.mapM (invert op)
  group op flag (xs ++ ys)

/-- Joins the first expression with the inverse of the second: difference or quotient. -/
def cancel (op : Op) (x y : Expr) : Supply Expr := do
  join op x (← invert op y)

/-- The operands of a node. -/
def args : Expr → List Expr
  | .leaf _ => []
  | .node _ _ _ args => args

mutual

/-- Equality of contents: labels, cells, operations, flags and operands in order, whatever the
identities of the lists. -/
def same : Expr → Expr → Bool
  | .leaf l, .leaf m => l = m
  | .node o _ f xs, .node p _ g ys => o = p && f == g && sameList xs ys
  | _, _ => false

def sameList : List Expr → List Expr → Bool
  | [], [] => true
  | x :: xs, y :: ys => same x y && sameList xs ys
  | _, _ => false

end

mutual

/-- The leaves of an expression, from left to right. -/
def leaves : Expr → List Leaf
  | .leaf l => [l]
  | .node _ _ _ args => leavesOf args

def leavesOf : List Expr → List Leaf
  | [] => []
  | e :: es => leaves e ++ leavesOf es

end

end Expr

end Pivotal
