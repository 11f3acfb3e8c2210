import AstDump.Node
import AstDump.Type.Width
import Std.Data.ExtTreeMap

/-!
# Trees of nodes

The nodes of a dump stand in one array in document order; links between them are positions in it. An
index finds a node by its id: of several nodes with one id, the first.

* `Tree.push`, `Tree.truncate`          : a node more at the end, and back to an earlier length;
* `Tree.find?`                          : the node with an id;
* `Tree.ancestors`, `Tree.enclosing?`   : the way up;
* `Tree.outline`                        : a subtree as indented lines.
-/

namespace AstDump

/-- From ids of records to nodes. -/
abbrev IdIndex := Std.ExtTreeMap String NodeId

/-- The nodes of a dump, in document order, with the index of their ids and the target that widths
of types refer to. -/
structure Tree where
  index : IdIndex
  nodes : Array Node
  target : Target

namespace Tree

/-- No nodes yet. -/
def empty (target : Target) : Tree := ⟨∅, #[], target⟩

/-- The number of nodes. -/
def size (t : Tree) : Nat := t.nodes.size

/-- The root comes first in document order. -/
def root : NodeId := 0

/-- The node at a position. -/
def node? (t : Tree) (i : NodeId) : Option Node := t.nodes[i]?

/-- One more node. Its position is the number of nodes before it; the index keeps the first node of
an id. -/
def push (t : Tree) (n : Node) : Tree :=
  { t with index := t.index.insertIfNew n.rawId t.size, nodes := t.nodes.push n }

@[simp] theorem size_push (t : Tree) (n : Node) : (t.push n).size = t.size + 1 := by
  simp [push, size]

/-- The first `mark` nodes, and of the index what points to them. -/
def truncate (t : Tree) (mark : Nat) : Tree :=
  { t with index := t.index.filter fun _ i => i < mark, nodes := t.nodes.take mark }

/-- The tree with one node changed; its id stays. -/
def modify (t : Tree) (i : NodeId) (f : Node → Node) : Tree :=
  { t with nodes := t.nodes.modify i f }

/-- The first node with an id. -/
def find? (t : Tree) (rawId : String) : Option NodeId := t.index[rawId]?

/-- The kind of a node. -/
def kind? (t : Tree) (i : NodeId) : Option Kind := (t.node? i).map Node.kind

/-- The ids of the children of a node. -/
def childIds (t : Tree) (i : NodeId) : Array NodeId := ((t.node? i).map Node.childIds).getD #[]

/-- The parent of a node. -/
def parent? (t : Tree) (i : NodeId) : Option NodeId := (t.node? i).bind Node.parent

/-- At most `n` nodes on the way up from `i`, without `i`. -/
def ancestorsUpTo (t : Tree) : (n : Nat) → NodeId → List NodeId
  | 0, _ => []
  | n + 1, i =>
    match t.parent? i with
    | some p => p :: ancestorsUpTo t n p
    | none => []

/-- The nodes on the way up, the parent first and the root last. There are never more than nodes in
all. -/
def ancestors (t : Tree) (i : NodeId) : List NodeId := t.ancestorsUpTo t.size i

/-- The nearest node on the way up that is of a kind. -/
def enclosing? (t : Tree) (i : NodeId) (kind : Kind) : Option NodeId :=
  (t.ancestors i).find? fun a => t.kind? a = some kind

/-- The node that the declaration referred to by a node has. -/
def resolve? (t : Tree) (i : NodeId) : Option NodeId :=
  ((t.node? i).bind Node.referencedId?).bind t.find?

/-- The width of a node's type: that of the declared spelling or, when nothing is known of it, that
of the spelling without typedefs. -/
def widthInBytes? (t : Tree) (n : Node) : Option Width :=
  n.declaredType?.map fun spelling =>
    match t.target.widthOf spelling with
    | .bytes k => .bytes k
    | .unknown => (n.desugaredType?.map t.target.widthOf).getD .unknown

/-! ## Outline -/

/-- One line of an outline. -/
def outlineLine (indent : Nat) (n : Node) : String :=
  String.ofList (List.replicate indent '\t') ++ n.rawId ++ " " ++ n.kind.tag ++ "\n"

/-- The lines of a subtree down to `levels` levels. -/
def outlineLines (t : Tree) : (levels : Nat) → (indent : Nat) → NodeId → List String
  | 0, _, _ => []
  | levels + 1, indent, i =>
    match t.node? i with
    | none => []
    | some n =>
      outlineLine indent n :: n.childIds.toList.flatMap (outlineLines t levels (indent + 1))

/-- A subtree as text: a line for every node, indented by a tab for each level below the first. A
tree has no more levels than nodes. -/
def outline (t : Tree) (i : NodeId) : String := String.join (t.outlineLines t.size 0 i)

end Tree

end AstDump
