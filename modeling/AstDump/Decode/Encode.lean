import AstDump.Decode.Error
import AstDump.Options.Basic
import AstDump.Tree.Basic

/-!
# Writing a unit back as a dump

Nothing is lost when a dump is decoded: from the nodes a dump can be written that decodes to them.

* `Tree.recordOf` : the record of a node, with the records below it;
* `Tree.encode`   : the dump of a tree.
-/

namespace AstDump

namespace Tree

/-- What stands for the children of a node: an empty list for a leaf, a lone placeholder for an
empty list. -/
def childItems (children : Option (Array NodeId)) (record : NodeId → Json) : List Json :=
  match children with
  | none => []
  | some ids => if ids.isEmpty then [.obj []] else ids.toList.map record

/-- The record of a node down to `levels` levels: its attributes, its id, its kind, and under the
first of the children fields the records of its children. -/
def recordOf (options : Options) (t : Tree) : (levels : Nat) → NodeId → Json
  | 0, _ => .obj []
  | levels + 1, i =>
    match t.node? i with
    | none => .obj []
    | some n =>
      let withId := n.attrs.insert RequiredField.id.key (.str n.rawId)
      let withKind := withId.insert RequiredField.kind.key (.str n.kind.tag)
      match options.childrenFields with
      | [] => .obj withKind
      | field :: _ =>
        .obj (withKind.insert field (.arr (childItems n.children (recordOf options t levels))))

/-- The dump of a tree. -/
def encode (options : Options) (t : Tree) : Json := t.recordOf options t.size root

end Tree

end AstDump
