import AstDump.Tree.Basic

/-!
# Searching a tree

A search collects the nodes of a kind among the children of a node, or among all nodes below it, in
document order. A predicate may look at what was found before and may have effects of its own: it
runs in a monad, and is asked once for every node of the kind.

* `Tree.collectWhereM` : the search, with a worklist;
* `Tree.collectWhere`  : with a plain predicate;
* `Tree.collect`       : all nodes of the kind;
* `Tree.collectFirst?` : the first child of the kind.
-/

namespace AstDump

namespace Tree

section Monadic

variable {m : Type → Type} [Monad m]

/-- The nodes found so far, and `i` if it is of the kind and accepted. -/
def testM (t : Tree) (kind : Kind) (accept : Array NodeId → NodeId → m Bool)
    (found : Array NodeId) (i : NodeId) : m (Array NodeId) := do
  if t.kind? i = some kind then
    if ← accept found i then return found.push i else return found
  else return found

/-- The search from a worklist, at most `n` nodes. The node at the front is tested; below it the
search goes on whether or not the node was accepted, before the nodes that follow it. -/
def searchM (t : Tree) (kind : Kind) (recursive : Bool) (accept : Array NodeId → NodeId → m Bool) :
    (n : Nat) → (worklist : List NodeId) → (found : Array NodeId) → m (Array NodeId)
  | 0, _, found => return found
  | _ + 1, [], found => return found
  | n + 1, i :: rest, found => do
    let found ← t.testM kind accept found i
    let below := if recursive then (t.childIds i).toList else []
    searchM t kind recursive accept n (below ++ rest) found

/-- The nodes of a kind that are accepted: of the children of a node, or of all nodes below it. A
search never looks at more nodes than there are. -/
def collectWhereM (t : Tree) (start : NodeId) (kind : Kind) (recursive : Bool)
    (accept : Array NodeId → NodeId → m Bool) : m (Array NodeId) :=
  t.searchM kind recursive accept t.size (t.childIds start).toList #[]

end Monadic

/-- The nodes of a kind that a plain predicate accepts. -/
def collectWhere (t : Tree) (start : NodeId) (kind : Kind) (recursive : Bool)
    (accept : Array NodeId → NodeId → Bool) : Array NodeId :=
  Id.run (t.collectWhereM start kind recursive fun found i => pure (accept found i))

/-- All nodes of a kind: of the children of a node, or of all nodes below it. -/
def collect (t : Tree) (start : NodeId) (kind : Kind) (recursive : Bool) : Array NodeId :=
  t.collectWhere start kind recursive fun _ _ => true

/-- The first child of a kind. -/
def collectFirst? (t : Tree) (start : NodeId) (kind : Kind) : Option NodeId :=
  (t.childIds start).find? fun i => t.kind? i = some kind

end Tree

end AstDump
