import AstDump.Decode.Record
import AstDump.Tree.BuildView
import AstDump.Unit.Basic

/-!
# Record trees

The records of a dump as a tree, without ids, positions or a stack: what a dump says, told by
recursion on its depth. Listing the tree in document order gives the nodes of the unit.

* `RecordTree.ofJson`  : the tree of a dump, with the errors of the items that were dropped;
* `RecordTree.nodes`   : the nodes in document order;
* `RecordTree.unit`    : the unit, its views worked out on the finished tree;
* `decodeByRecursion`  : the unit of a dump by way of its record tree.
-/

namespace AstDump

/-- A record and the records below it. A leaf has no list of children, or an empty one; the list of
a branch may hold nothing but placeholders. -/
inductive RecordTree where
  | leaf (rawId : String) (kind : Kind) (attrs : Members)
  | branch (rawId : String) (kind : Kind) (attrs : Members) (children : List RecordTree)
  deriving Repr, Inhabited

namespace RecordTree

/-! ## The tree of a dump -/

/-- The trees of the items of a list, from a position on. Placeholders are passed over. An item that
has no tree fails the list, or is dropped and its error kept. -/
def ofItems (recover : Bool)
    (ofItem : Path → Json → Except DecodeError (RecordTree × List DecodeError))
    (path : Path) (field : String) :
    (position : Nat) → List Json → Except DecodeError (List RecordTree × List DecodeError)
  | _, [] => .ok ([], [])
  | position, item :: rest =>
    if item.IsPlaceholder then ofItems recover ofItem path field (position + 1) rest
    else match ofItem (path ++ [.item field position]) item with
      | .ok (tree, errors) => do
        let (trees, more) ← ofItems recover ofItem path field (position + 1) rest
        return (tree :: trees, errors ++ more)
      | .error e =>
        if recover then do
          let (trees, more) ← ofItems recover ofItem path field (position + 1) rest
          return (trees, e :: more)
        else .error e

/-- The tree of a record, with the trees of its items. -/
def ofRecord (options : Options) (r : Record) (items : List Json) (trees : List RecordTree) :
    RecordTree :=
  if items.isEmpty then .leaf r.rawId r.kind (r.attrs options)
  else .branch r.rawId r.kind (r.attrs options) trees

/-- The tree of a value that should be a record, where so many levels are left. With none left it
lies too deep. -/
def ofLevels (options : Options) :
    (levels : Nat) → Path → Json → Except DecodeError (RecordTree × List DecodeError)
  | 0, path, _ => .error (.tooDeep path options.maxDepth)
  | levels + 1, path, raw => do
    let r ← Record.read options path (options.maxDepth - levels) raw
    let inside := path ++ [.node r.kind r.rawId]
    match r.items? options with
    | none => .error (.malformedChildren inside r.rawId r.kind)
    | some items =>
      let (trees, errors) ← ofItems options.recoverMalformed (ofLevels options levels) inside
        (r.childrenField options) 0 items
      return (ofRecord options r items trees, errors)

/-- The tree of a dump, with the errors of the items that were dropped. -/
def ofJson (options : Options) (raw : Json) : Except DecodeError (RecordTree × List DecodeError) :=
  ofLevels options (options.maxDepth + 1) [] raw

/-! ## The nodes of a tree -/

mutual

/-- The number of records in a tree. -/
def size : RecordTree → Nat
  | leaf _ _ _ => 1
  | branch _ _ _ children => sizeAll children + 1

/-- The number of records in a list of trees. -/
def sizeAll : List RecordTree → Nat
  | [] => 0
  | t :: ts => t.size + sizeAll ts

end

/-- The positions of the tops of trees that are listed one after the other. -/
def tops (first : NodeId) : List RecordTree → List NodeId
  | [] => []
  | t :: ts => first :: tops (first + t.size) ts

/-- The node of the top of a tree, at position `first` and without a view. -/
def top (parent : Option NodeId) (depth : Nat) (first : NodeId) : RecordTree → Node
  | leaf rawId kind attrs => { rawId, kind, attrs, children := none, parent, depth, view := .plain }
  | branch rawId kind attrs children => {
      rawId, kind, attrs, parent, depth
      children := some (tops (first + 1) children).toArray
      view := .plain }

mutual

/-- The nodes of a tree in document order, without views, its top at position `first`. -/
def nodes (parent : Option NodeId) (depth : Nat) (first : NodeId) : RecordTree → List Node
  | leaf rawId kind attrs => [(leaf rawId kind attrs).top parent depth first]
  | branch rawId kind attrs children =>
    (branch rawId kind attrs children).top parent depth first ::
      nodesAll (some first) (depth + 1) (first + 1) children

/-- The nodes of trees that are listed one after the other, all below one parent. -/
def nodesAll (parent : Option NodeId) (depth : Nat) (first : NodeId) : List RecordTree → List Node
  | [] => []
  | t :: ts => t.nodes parent depth first ++ nodesAll parent depth (first + t.size) ts

end

end RecordTree

/-- The tree of a list of nodes. -/
def Tree.ofNodes (target : Target) (nodes : List Node) : Tree :=
  nodes.foldl Tree.push (.empty target)

/-- The tree with the view of every node worked out on the tree as it is. -/
def Tree.withViews (t : Tree) : Tree :=
  { t with nodes := t.nodes.mapIdx fun i n => { n with view := t.buildView i } }

/-- The registry of a list of nodes. -/
def Registry.ofNodes (nodes : List Node) : Registry :=
  nodes.zipIdx.foldl (fun r n => r.record n.1.kind n.2) .empty

namespace RecordTree

/-- The unit of a record tree. -/
def unit (target : Target) (tree : RecordTree) (errors : List DecodeError) : TranslationUnit :=
  let nodes := tree.nodes none 0 Tree.root
  ⟨(Tree.ofNodes target nodes).withViews, Registry.ofNodes nodes, errors.toArray⟩

end RecordTree

/-- The unit of a dump by way of its record tree. -/
def decodeByRecursion (options : Options) (raw : Json) : Except DecodeError TranslationUnit :=
  (RecordTree.ofJson options raw).map fun (tree, errors) => tree.unit options.target errors

end AstDump
