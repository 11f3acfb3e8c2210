import AstDump.Json.DecidableEq
import AstDump.Json.Printer
import AstDump.Kind
import AstDump.Location
import AstDump.Text.Quoted
import AstDump.View

/-!
# Nodes

A node is a record of the dump: its id and kind, its place in the tree, and all other fields of the
record as its attributes.

* `Node.name?`, `Node.value?`, `Node.valueText?`  : what a node is called and what it holds;
* `Node.declaredType?`, `Node.desugaredType?`     : the spellings of its type;
* `Node.location?`, `Node.range?`                 : where it stands in the source;
* `Node.referencedId?`                            : the id of the declaration that it refers to;
* `Node.reference`                                : the node in a message.
-/

namespace AstDump

/-- A node of a tree. A record without a list of children, or with an empty one, is a leaf and has
no list; a list of nothing but placeholders is an empty list. -/
structure Node where
  rawId : String
  kind : Kind
  attrs : Members
  children : Option (Array NodeId)
  parent : Option NodeId
  depth : Nat
  view : View
  deriving DecidableEq, Repr, Inhabited

namespace Node

/-- The record had no list of children, or an empty one. -/
def isLeaf (n : Node) : Bool := n.children.isNone

/-- The ids of the children; a leaf has none. -/
def childIds (n : Node) : Array NodeId := n.children.getD #[]

/-- An attribute by its key. -/
def attr? (n : Node) (key : String) : Option Json := n.attrs.get? key

/-- The name, when it is a string. -/
def name? (n : Node) : Option String := (n.attr? "name").bind Json.text?

/-- The compiler made the node up. -/
def isImplicit (n : Node) : Bool := ((n.attr? "isImplicit").bind Json.bool?).getD false

/-- The value of a literal, as it stands in the record. -/
def value? (n : Node) : Option Json := n.attr? "value"

/-- The value as text: strings as they are, anything else but null as compact JSON. -/
def valueText? (n : Node) : Option String :=
  n.value?.bind fun
    | .str s => some s
    | .null => none
    | v => some v.compact

/-- The place of the node. -/
def location? (n : Node) : Option Location := (n.attr? "loc").bind Location.ofJson?

/-- The first and the last place of the node. -/
def range? (n : Node) : Option SourceRange := (n.attr? "range").bind SourceRange.ofJson?

/-- The spelling of the type as it was declared. -/
def declaredType? (n : Node) : Option String :=
  (n.attr? "type").bind fun
    | .str s => some s
    | v => (v.member? "qualType").bind Json.text?

/-- The spelling of the type with typedefs replaced, where the record gives it. -/
def desugaredType? (n : Node) : Option String :=
  (n.attr? "type").bind fun v => (v.member? "desugaredQualType").bind Json.text?

/-- The id of the declaration that the node refers to. -/
def referencedId? (n : Node) : Option String :=
  ((n.attr? "referencedDecl").or (n.attr? "referencedMemberDecl")).bind fun
    | .str s => some s
    | v => (v.member? "id").bind Json.text?

/-- The node in a message, by its id and the tag of its kind. -/
def reference (n : Node) : String :=
  "NodeRef \x7b id: " ++ Text.quote n.rawId ++ ", kind: " ++ Text.quote n.kind.tag ++ " \x7d"

/-- The node is a variable or a parameter. -/
def isVariable (n : Node) : Bool := n.kind.isVariable

end Node

end AstDump
