import AstDump.Kind
import AstDump.View

/-!
# Registries

While a dump is decoded, the nodes of five kinds are listed as they come.

* `Registry.record`   : a node more;
* `Registry.rollback` : without the nodes from a mark on.
-/

namespace AstDump

/-- The nodes of the kinds that are listed, each list in document order. -/
structure Registry where
  functions : Array NodeId
  compounds : Array NodeId
  forLoops : Array NodeId
  whileLoops : Array NodeId
  doLoops : Array NodeId
  deriving DecidableEq, Repr, Inhabited

namespace Registry

/-- Nothing listed yet. -/
def empty : Registry := ⟨#[], #[], #[], #[], #[]⟩

/-- The registry with a node of a kind added; nodes of other kinds are not listed. -/
def record (r : Registry) (kind : Kind) (i : NodeId) : Registry :=
  match kind with
  | .functionDecl => { r with functions := r.functions.push i }
  | .compoundStmt => { r with compounds := r.compounds.push i }
  | .forStmt => { r with forLoops := r.forLoops.push i }
  | .whileStmt => { r with whileLoops := r.whileLoops.push i }
  | .doStmt => { r with doLoops := r.doLoops.push i }
  | _ => r

/-- The registry without the entries at the ends of its lists that are not below the mark. -/
def rollback (r : Registry) (mark : Nat) : Registry where
  functions := r.functions.popWhile (mark ≤ ·)
  compounds := r.compounds.popWhile (mark ≤ ·)
  forLoops := r.forLoops.popWhile (mark ≤ ·)
  whileLoops := r.whileLoops.popWhile (mark ≤ ·)
  doLoops := r.doLoops.popWhile (mark ≤ ·)

/-- The number of entries. -/
def total (r : Registry) : Nat :=
  r.functions.size + r.compounds.size + r.forLoops.size + r.whileLoops.size + r.doLoops.size

end Registry

end AstDump
