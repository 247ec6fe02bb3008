import Pivotal.Expr.Basic
import Std.Data.HashSet

/-!
# Sizes of expressions

`nodeCount` and `depth` measure the expression as a tree, with every occurrence of a shared list.
`distinctCount` visits each list once.
-/

namespace Pivotal.Expr

mutual

/-- Nodes and leaves of the tree. -/
def nodeCount : Expr → Nat
  | .leaf _ => 1
  | .node _ _ _ args => 1 + nodeCountList args

def nodeCountList : List Expr → Nat
  | [] => 0
  | e :: es => nodeCount e + nodeCountList es

end

mutual

/-- Length of the longest path to a leaf or to an empty list. -/
def depth : Expr → Nat
  | .leaf _ => 1
  | .node _ _ _ args => 1 + depthList args

def depthList : List Expr → Nat
  | [] => 0
  | e :: es => max (depth e) (depthList es)

end

mutual

/-- Nodes and leaves when the lists in `seen` are skipped, and the lists seen afterwards. -/
def countUnseen : Expr → Std.HashSet Nat → Nat × Std.HashSet Nat
  | .leaf _, seen => (1, seen)
  | .node _ list _ args, seen =>
    if seen.contains list then (0, seen)
    else
      let (k, seen) := countUnseenList args (seen.insert list)
      (1 + k, seen)

def countUnseenList : List Expr → Std.HashSet Nat → Nat × Std.HashSet Nat
  | [], seen => (0, seen)
  | e :: es, seen =>
    let (k, seen) := countUnseen e seen
    let (m, seen) := countUnseenList es seen
    (k + m, seen)

end

/-- Nodes and leaves with every list of operands counted once. -/
def distinctCount (e : Expr) : Nat := (countUnseen e ∅).1

end Pivotal.Expr
