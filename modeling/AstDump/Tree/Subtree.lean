import AstDump.Tree.Basic

/-!
# Subtrees

The nodes below a node, told by recursion on the tree instead of a worklist.

* `Tree.descendants` : all nodes below a node, in document order;
* `Tree.subtreeSize` : the number of nodes of a subtree, its top included.
-/

namespace AstDump

namespace Tree

/-- The nodes of a subtree without its top, down to `levels` levels: every child, and after it the
nodes below it. -/
def descendantsUpTo (t : Tree) : (levels : Nat) → NodeId → List NodeId
  | 0, _ => []
  | levels + 1, i => (t.childIds i).toList.flatMap fun c => c :: descendantsUpTo t levels c

/-- All nodes below a node, in document order. A tree has no more levels than nodes. -/
def descendants (t : Tree) (i : NodeId) : List NodeId := t.descendantsUpTo t.size i

/-- The number of nodes of a subtree, its top included. -/
def subtreeSize (t : Tree) (i : NodeId) : Nat := (t.descendants i).length + 1

end Tree

end AstDump
