import AstDump.Tree.Variable
import AstDump.Unit.Lookup
import AstDump.Unit.Basic

/-!
# Functions, compound statements and loops of a unit

A node with a view can be asked as what it is. Every list can be had whole or by position.

* `Tree.function?`, `Tree.compound?`, `Tree.loop?` : a node as what its view says it is;
* `FunctionDecl`, `CompoundStmt`, `LoopStmt`       : what can be asked of each;
* `TranslationUnit.functions` and so on            : those that the registry lists;
* `TranslationUnit.functionNamed?`                 : a function by name, a definition first.
-/

namespace AstDump

/-- A node that is a function declaration. -/
structure FunctionDecl where
  node : NodeId
  view : FunctionView
  deriving DecidableEq, Repr, Inhabited

/-- A node that is a compound statement. -/
structure CompoundStmt where
  node : NodeId
  view : CompoundView
  deriving DecidableEq, Repr, Inhabited

/-- A node that is a loop. -/
structure LoopStmt where
  node : NodeId
  view : LoopView
  deriving DecidableEq, Repr, Inhabited

namespace Tree

/-- The view of a node. -/
def view? (t : Tree) (i : NodeId) : Option View := (t.node? i).map Node.view

/-- The node as a function declaration. -/
def function? (t : Tree) (i : NodeId) : Option FunctionDecl :=
  match t.view? i with
  | some (.function view) => some ⟨i, view⟩
  | _ => none

/-- The node as a compound statement. -/
def compound? (t : Tree) (i : NodeId) : Option CompoundStmt :=
  match t.view? i with
  | some (.compound view) => some ⟨i, view⟩
  | _ => none

/-- The node as a loop. -/
def loop? (t : Tree) (i : NodeId) : Option LoopStmt :=
  match t.view? i with
  | some (.loop view) => some ⟨i, view⟩
  | _ => none

end Tree

namespace FunctionDecl

/-- The name of the function. -/
def name? (t : Tree) (f : FunctionDecl) : Option String := (t.node? f.node).bind Node.name?

/-- The parameter at a position. -/
def param (f : FunctionDecl) (index : Nat) : Except LookupError NodeId :=
  pick .parameters f.view.params index

/-- The body of the function. -/
def body? (t : Tree) (f : FunctionDecl) : Option CompoundStmt := f.view.body.bind t.compound?

/-- The function has a body. -/
def isDefinition (f : FunctionDecl) : Bool := f.view.body.isSome

/-- The result type, from the spelling of the function's type. -/
def resultType? (f : FunctionDecl) : Option String := f.view.signature.map TypeName.resultType

end FunctionDecl

namespace CompoundStmt

/-- The variables that the statement declares one to a statement. -/
def varDecls (t : Tree) (c : CompoundStmt) : List NodeId :=
  c.view.varDecls.toList.filterMap t.varDecl?

/-- The variable at a position. -/
def varDecl (t : Tree) (c : CompoundStmt) (index : Nat) : Except LookupError NodeId :=
  pickAs .variableDeclarations c.view.varDecls t.varDecl? index

/-- The `for` loops below the statement. -/
def forLoops (t : Tree) (c : CompoundStmt) : List LoopStmt :=
  c.view.forLoops.toList.filterMap t.loop?

/-- The `for` loop at a position. -/
def forLoop (t : Tree) (c : CompoundStmt) (index : Nat) : Except LookupError LoopStmt :=
  pickAs .forLoops c.view.forLoops t.loop? index

/-- The `while` loops below the statement. -/
def whileLoops (t : Tree) (c : CompoundStmt) : List LoopStmt :=
  c.view.whileLoops.toList.filterMap t.loop?

/-- The `while` loop at a position. -/
def whileLoop (t : Tree) (c : CompoundStmt) (index : Nat) : Except LookupError LoopStmt :=
  pickAs .whileLoops c.view.whileLoops t.loop? index

/-- The `do` loops below the statement. -/
def doLoops (t : Tree) (c : CompoundStmt) : List LoopStmt := c.view.doLoops.toList.filterMap t.loop?

/-- The `do` loop at a position. -/
def doLoop (t : Tree) (c : CompoundStmt) (index : Nat) : Except LookupError LoopStmt :=
  pickAs .doLoops c.view.doLoops t.loop? index

/-- The call at a position. -/
def call (c : CompoundStmt) (index : Nat) : Except LookupError NodeId :=
  pick .calls c.view.calls index

end CompoundStmt

/-- How sure it is that a counting loop counts. -/
inductive Confidence where
  | high
  | low
  deriving DecidableEq, Repr, Inhabited

namespace LoopStmt

/-- The loop has the header of a counting loop. -/
def isBasic (l : LoopStmt) : Bool := l.view.bounds.isSome

/-- Where the loop starts. -/
def lowerBound? (l : LoopStmt) : Option NodeId := l.view.bounds.map LoopBounds.lower

/-- Where the loop ends. -/
def upperBound? (l : LoopStmt) : Option NodeId := l.view.bounds.map LoopBounds.upper

/-- How the loop goes on. -/
def step? (l : LoopStmt) : Option NodeId := l.view.bounds.map LoopBounds.step

/-- Kinds of the first part of a counting header. -/
def lowerKinds : List Kind := [.declStmt, .binaryOperator]

/-- Kinds of the second part of a counting header. -/
def upperKinds : List Kind := [.binaryOperator]

/-- Kinds of the third part of a counting header. -/
def stepKinds : List Kind := [.unaryOperator, .compoundAssignOperator, .binaryOperator]

/-- The confidence in a counting loop: high when all three parts of its header are of the usual
kinds and it has a body. -/
def confidence? (t : Tree) (l : LoopStmt) : Option Confidence :=
  l.view.bounds.map fun b =>
    let usual (i : NodeId) (kinds : List Kind) : Bool := (t.kind? i).any kinds.contains
    if usual b.lower lowerKinds && usual b.upper upperKinds && usual b.step stepKinds &&
        l.view.body.isSome then .high
    else .low

/-- The body of the loop. -/
def body? (t : Tree) (l : LoopStmt) : Option CompoundStmt := l.view.body.bind t.compound?

/-- The variable at a position. -/
def varDecl (l : LoopStmt) (index : Nat) : Except LookupError NodeId :=
  pick .variableDeclarations l.view.varDecls index

/-- The call at a position. -/
def call (l : LoopStmt) (index : Nat) : Except LookupError NodeId := pick .calls l.view.calls index

/-- The break at a position. -/
def breakPoint (l : LoopStmt) (index : Nat) : Except LookupError NodeId :=
  pick .breakStatements l.view.breaks index

end LoopStmt

namespace TranslationUnit

/-- The functions of the unit. -/
def functions (u : TranslationUnit) : List FunctionDecl :=
  u.registry.functions.toList.filterMap u.tree.function?

/-- The function at a position. -/
def function (u : TranslationUnit) (index : Nat) : Except LookupError FunctionDecl :=
  pickAs .functions u.registry.functions u.tree.function? index

/-- The first definition of a function by name; where there is none, the first declaration. -/
def functionNamed? (u : TranslationUnit) (name : String) : Option FunctionDecl :=
  let candidates := u.functions.filter fun f => f.name? u.tree = some name
  (candidates.find? FunctionDecl.isDefinition).or candidates.head?

/-- The compound statements of the unit. -/
def compounds (u : TranslationUnit) : List CompoundStmt :=
  u.registry.compounds.toList.filterMap u.tree.compound?

/-- The compound statement at a position. -/
def compound (u : TranslationUnit) (index : Nat) : Except LookupError CompoundStmt :=
  pickAs .compoundStatements u.registry.compounds u.tree.compound? index

/-- The `for` loops of the unit. -/
def forLoops (u : TranslationUnit) : List LoopStmt :=
  u.registry.forLoops.toList.filterMap u.tree.loop?

/-- The `for` loop at a position. -/
def forLoop (u : TranslationUnit) (index : Nat) : Except LookupError LoopStmt :=
  pickAs .forLoops u.registry.forLoops u.tree.loop? index

/-- The `while` loops of the unit. -/
def whileLoops (u : TranslationUnit) : List LoopStmt :=
  u.registry.whileLoops.toList.filterMap u.tree.loop?

/-- The `while` loop at a position. -/
def whileLoop (u : TranslationUnit) (index : Nat) : Except LookupError LoopStmt :=
  pickAs .whileLoops u.registry.whileLoops u.tree.loop? index

/-- The `do` loops of the unit. -/
def doLoops (u : TranslationUnit) : List LoopStmt :=
  u.registry.doLoops.toList.filterMap u.tree.loop?

/-- The `do` loop at a position. -/
def doLoop (u : TranslationUnit) (index : Nat) : Except LookupError LoopStmt :=
  pickAs .doLoops u.registry.doLoops u.tree.loop? index

end TranslationUnit

end AstDump
