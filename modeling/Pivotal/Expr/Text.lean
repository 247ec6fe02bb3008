import Pivotal.Complex.Text
import Pivotal.Expr.Basic
import Pivotal.Text.Quoted

/-!
# Text of expressions

`text` is the formula as a reader expects it: a named leaf by its name, any other by its value, sums
as `(a + b)` or `-(a + b)`, products as `(a * b)` or `[(a * b)^(-1)]`.  `inspected` spells out the
structure.
-/

namespace Pivotal

/-- A leaf by its name, or by its value when it has none. -/
def Leaf.text (v : Nat → Complex) (l : Leaf) : List Char :=
  match l.label with
  | some name => name.toList
  | none => (v l.cell).pretty

/-- A leaf with its name and its value. -/
def Leaf.inspected (v : Nat → Complex) (l : Leaf) : List Char :=
  let label := match l.label with
    | some name => "Some(".toList ++ Text.quote name.toList ++ [')']
    | none => "None".toList
  "Variable \x7b label: ".toList ++ label ++ ", value: ".toList ++ (v l.cell).inspected ++
    " \x7d".toList

/-- A leaf as the source of its cell. -/
def Leaf.inspectedSource (v : Nat → Complex) (l : Leaf) : List Char :=
  "VariableSource \x7b variable: ".toList ++ l.inspected v ++ " \x7d".toList

namespace Expr

/-- What stands between two operands. -/
def glue : Op → List Char
  | .sum => " + ".toList
  | .product => " * ".toList

/-- Text of a node without operands. -/
def emptyText : Op → List Char
  | .sum => ['0']
  | .product => ['1']

/-- Brackets around the joined operands of a node. -/
def bracket (op : Op) (flag : Bool) (body : List Char) : List Char :=
  let inner := '(' :: body ++ [')']
  match op, flag with
  | .sum, true => '-' :: inner
  | .product, true => '[' :: inner ++ "^(-1)]".toList
  | _, false => inner

mutual

def text (v : Nat → Complex) : Expr → List Char
  | .leaf l => l.text v
  | .node op _ flag args =>
    if args.isEmpty then emptyText op
    else bracket op flag ((glue op).intercalate (textList v args))

def textList (v : Nat → Complex) : List Expr → List (List Char)
  | [] => []
  | e :: es => text v e :: textList v es

end

/-- The structure of a node around its inspected operands. -/
def inspectedNode (op : Op) (flag : Bool) (body : List Char) : List Char :=
  let flagText := (if flag then "true" else "false").toList
  match op with
  | .sum =>
    "Sum(SumOfProducts \x7b summands: [".toList ++ body ++ "], sign: ".toList ++ flagText ++
      " \x7d)".toList
  | .product =>
    "Product(ProductOfSums \x7b factors: [".toList ++ body ++ "], power: ".toList ++ flagText ++
      " \x7d)".toList

mutual

def inspected (v : Nat → Complex) : Expr → List Char
  | .leaf l => "Variable(".toList ++ l.inspected v ++ [')']
  | .node op _ flag args =>
    inspectedNode op flag (", ".toList.intercalate (inspectedList v args))

def inspectedList (v : Nat → Complex) : List Expr → List (List Char)
  | [] => []
  | e :: es => inspected v e :: inspectedList v es

end

end Expr

end Pivotal
