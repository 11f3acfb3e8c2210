import AstDump.Decode.Record
import AstDump.Tree.BuildView
import AstDump.Unit.Basic

/-!
# Decoding a dump

The walk over a dump keeps its own stack of frames, so that nesting is bounded by the depth limit
alone. A node gets its place, in the tree and in the registry, when its record is entered, and its
children and view when the last of its items is done.

* `Walk.enter`   : a record is checked, and its node and frame are made;
* `Walk.finish`  : a frame is closed;
* `Walk.restore` : back to where the walk was before an item was tried;
* `Walk.step`    : an item more, or a frame less;
* `decode`       : the unit of a dump.
-/

namespace AstDump

/-- How far a walk has come: the number of its nodes and the length of its path. -/
structure Mark where
  nodes : Nat
  path : Nat
  deriving DecidableEq, Repr, Inhabited

/-- A node whose items are not all done: the field that they stand in, the items ahead, the position
of the first of them, the children so far, and how far the walk had come before the node. -/
structure Frame where
  node : NodeId
  depth : Nat
  field : String
  items : List Json
  position : Nat
  children : Option (Array NodeId)
  outside : Mark
  deriving DecidableEq, Repr, Inhabited

/-- The frame with one child more, if it has a list for children. -/
def Frame.addChild (f : Frame) (i : NodeId) : Frame :=
  { f with children := f.children.map (·.push i) }

/-- The state of the walk. -/
structure Walk where
  registry : Registry
  tree : Tree
  diagnostics : Array DecodeError
  path : Path
  stack : List Frame

namespace Walk

/-- Nothing is entered yet. -/
def start (options : Options) : Walk := ⟨.empty, .empty options.target, #[], [], []⟩

/-- How far the walk has come. -/
def mark (w : Walk) : Mark := ⟨w.tree.size, w.path.length⟩

/-- One step further down. -/
def descend (w : Walk) (s : PathStep) : Walk := { w with path := w.path ++ [s] }

/-- A node more, without children and view for now. -/
def allocate (w : Walk) (n : Node) : Walk :=
  { w with registry := w.registry.record n.kind w.tree.size, tree := w.tree.push n }

/-- Enters a value that should be a node record. The path gets the step of the node before the
children field is looked at. The frame of a record without items has no list for children. -/
def enter (options : Options) (w : Walk) (raw : Json) (parent : Option NodeId) (depth : Nat)
    (outside : Mark) : Except DecodeError Frame × Walk :=
  match Record.read options w.path depth raw with
  | .error e => (.error e, w)
  | .ok r =>
    let w := w.descend (.node r.kind r.rawId)
    match r.items? options with
    | none => (.error (.malformedChildren w.path r.rawId r.kind), w)
    | some items =>
      let frame : Frame := {
        node := w.tree.size
        depth
        field := r.childrenField options
        items
        position := 0
        children := if items.isEmpty then none else some #[]
        outside }
      let node : Node := {
        rawId := r.rawId
        kind := r.kind
        attrs := r.attrs options
        children := none
        parent
        depth
        view := .plain }
      (.ok frame, w.allocate node)

/-- Closes a frame: its node gets its children, then its view, and becomes a child of the frame
below. -/
def finish (w : Walk) (top : Frame) (below : List Frame) : Walk :=
  let tree := w.tree.modify top.node fun n => { n with children := top.children }
  let view := tree.buildView top.node
  { w with
    tree := tree.modify top.node fun n => { n with view }
    path := w.path.take top.outside.path
    stack := match below with
      | [] => []
      | parent :: rest => parent.addChild top.node :: rest }

/-- Back to a mark: the path, the nodes and the registry as far as they had come then. -/
def restore (w : Walk) (mark : Mark) : Walk :=
  { w with
    path := w.path.take mark.path
    tree := w.tree.truncate mark.nodes
    registry := w.registry.rollback mark.nodes }

/-- An error is kept and the walk goes on. -/
def report (w : Walk) (e : DecodeError) : Walk := { w with diagnostics := w.diagnostics.push e }

/-- Tries an item of the frame on top, which has already moved past it. A malformed item fails the
walk, or is dropped and reported. -/
def tryItem (options : Options) (w : Walk) (top : Frame) (item : Json) : Except DecodeError Walk :=
  let before := w.mark
  let down := w.descend (.item top.field top.position)
  match enter options down item (some top.node) (top.depth + 1) before with
  | (.ok frame, w) => .ok { w with stack := frame :: w.stack }
  | (.error e, w) =>
    if options.recoverMalformed then .ok ((w.restore before).report e) else .error e

/-- One step of the walk: the frame on top is closed when it has no items left; otherwise its next
item is tried, or passed over when it is a placeholder. -/
def step (options : Options) (w : Walk) : Except DecodeError Walk :=
  match w.stack with
  | [] => .ok w
  | top :: below =>
    match top.items with
    | [] => .ok (w.finish top below)
    | item :: rest =>
      let w := { w with stack := { top with items := rest, position := top.position + 1 } :: below }
      if item.IsPlaceholder then .ok w else w.tryItem options top item

/-- At most `n` steps of the walk. -/
def run (options : Options) : (n : Nat) → Walk → Except DecodeError Walk
  | 0, w => .ok w
  | n + 1, w =>
    if w.stack.isEmpty then .ok w
    else match w.step options with
      | .ok w => run options n w
      | .error e => .error e

/-- The unit of a walk that is over. -/
def unit (w : Walk) : TranslationUnit := ⟨w.tree, w.registry, w.diagnostics⟩

end Walk

/-- The unit of a dump. Every value is tried at most once and every frame is closed once, so twice
the size of the dump is enough steps. -/
def decode (options : Options) (raw : Json) : Except DecodeError TranslationUnit :=
  let start := Walk.start options
  match start.enter options raw none 0 start.mark with
  | (.error e, _) => .error e
  | (.ok frame, w) => ({ w with stack := [frame] }.run options (2 * raw.size)).map Walk.unit

end AstDump
