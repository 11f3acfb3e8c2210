/-!
# Views of nodes

What a function, a compound statement or a loop is asked for most is worked out once, when its whole
subtree is there. A view holds the ids of nodes; it is built by `Tree.buildView`.
-/

namespace AstDump

/-- A node's position in document order, the root at zero. -/
abbrev NodeId := Nat

/-- What a function declaration holds: its parameters, its body if it is a definition, and the
spelling of its type. -/
structure FunctionView where
  params : Array NodeId
  body : Option NodeId
  signature : Option String
  deriving DecidableEq, Repr, Inhabited

/-- What a compound statement holds: the variables that it declares one to a statement, and the
loops and calls anywhere below it. -/
structure CompoundView where
  varDecls : Array NodeId
  forLoops : Array NodeId
  whileLoops : Array NodeId
  doLoops : Array NodeId
  calls : Array NodeId
  deriving DecidableEq, Repr, Inhabited

/-- The header of a counting loop. -/
structure LoopBounds where
  lower : NodeId
  upper : NodeId
  step : NodeId
  deriving DecidableEq, Repr, Inhabited

/-- What a loop holds: its header if it is a counting loop, its body, and of the body the variables
and calls anywhere below it and the breaks directly in it. -/
structure LoopView where
  bounds : Option LoopBounds
  body : Option NodeId
  varDecls : Array NodeId
  calls : Array NodeId
  breaks : Array NodeId
  deriving DecidableEq, Repr, Inhabited

/-- The view of a node; most kinds have none of their own. -/
inductive View where
  | plain
  | function (view : FunctionView)
  | compound (view : CompoundView)
  | loop (view : LoopView)
  deriving DecidableEq, Repr, Inhabited

end AstDump
