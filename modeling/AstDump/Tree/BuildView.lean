import AstDump.Tree.Search

/-!
# Building views

The view of a node is worked out from the nodes below it.

* `Tree.functionView`, `Tree.compoundView`, `Tree.loopView` : the views of the kinds that have one;
* `Tree.buildView`                                          : the view of any node.
-/

namespace AstDump

namespace Tree

/-- The view of a function declaration. -/
def functionView (t : Tree) (i : NodeId) : FunctionView where
  params := t.collect i .parmVarDecl false
  body := t.collectFirst? i .compoundStmt
  signature := (t.node? i).bind Node.declaredType?

/-- The variables of the declaration statements directly below a node that declare exactly one. -/
def singleVarDecls (t : Tree) (i : NodeId) : Array NodeId :=
  let single := t.collectWhere i .declStmt false fun _ stmt =>
    (t.collect stmt .varDecl false).size = 1
  single.filterMap fun stmt => t.collectFirst? stmt .varDecl

/-- The view of a compound statement. -/
def compoundView (t : Tree) (i : NodeId) : CompoundView where
  varDecls := t.singleVarDecls i
  forLoops := t.collect i .forStmt true
  whileLoops := t.collect i .whileStmt true
  doLoops := t.collect i .doStmt true
  calls := t.collect i .callExpr true

/-- The header of a counting loop: of a `for` with exactly four children, the first three. -/
def loopBounds? (t : Tree) (i : NodeId) : Option LoopBounds :=
  if t.kind? i = some .forStmt then
    match (t.childIds i).toList with
    | [lower, upper, step, _] => some ⟨lower, upper, step⟩
    | _ => none
  else none

/-- The view of a loop. Without a body there is nothing to collect. -/
def loopView (t : Tree) (i : NodeId) : LoopView :=
  match t.collectFirst? i .compoundStmt with
  | some body => {
      bounds := t.loopBounds? i
      body := some body
      varDecls := t.collect body .varDecl true
      calls := t.collect body .callExpr true
      breaks := t.collect body .breakStmt false }
  | none => ⟨t.loopBounds? i, none, #[], #[], #[]⟩

/-- The view of a node, by its kind. -/
def buildView (t : Tree) (i : NodeId) : View :=
  match t.kind? i with
  | some .functionDecl => .function (t.functionView i)
  | some .compoundStmt => .compound (t.compoundView i)
  | some kind => if kind.isLoop then .loop (t.loopView i) else .plain
  | none => .plain

end Tree

end AstDump
