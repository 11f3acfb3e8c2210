import AstDump.Type.Width

/-!
# Options of decoding

* `Options`         : what the reader of a dump may choose;
* `Options.default` : what holds where nothing is chosen.
-/

namespace AstDump

/-- How a dump is decoded: the pointer width of the target, the depth below which records are
refused, the fields that may hold a node's children, the first that is present counting, and whether
malformed subtrees are dropped instead of failing the dump. -/
structure Options where
  pointerWidth : Nat
  maxDepth : Nat
  childrenFields : List String
  recoverMalformed : Bool
  deriving DecidableEq, Repr

namespace Options

/-- The depth limit where none is chosen. -/
def defaultMaxDepth : Nat := 256

/-- The options where nothing is chosen. -/
def default : Options where
  pointerWidth := Target.defaultPointerWidth
  maxDepth := defaultMaxDepth
  childrenFields := ["inner", "children"]
  recoverMalformed := false

instance : Inhabited Options := ⟨default⟩

/-- The target that widths of types refer to. -/
def target (o : Options) : Target := ⟨o.pointerWidth⟩

end Options

end AstDump
