import AstDump.Summary.Basic
import AstDump.Unit.Views

/-!
# Summarising a unit

* `FunctionDecl.summary`, `LoopStmt.summary` : the summaries of one function and of one loop;
* `TranslationUnit.summary`                  : of all functions and loops, in registry order;
* `TranslationUnit.extractArguments`         : of the one function that is meant.
-/

namespace AstDump

/-- How many of a function's arguments are inputs and how many outputs: of two or more, the last is
the output. -/
def splitArgs : Nat → Nat × Nat
  | 0 => (0, 0)
  | 1 => (1, 0)
  | n + 2 => (n + 1, 1)

/-- A place as file and line. Without a line it is left out. -/
def Location.fileAndLine? (l : Location) : Option String :=
  l.line.map fun line => l.file.getD "<unknown>" ++ ":" ++ String.ofList (Nat.toDigits 10 line)

namespace FunctionDecl

/-- The summary of a function. -/
def summary (t : Tree) (f : FunctionDecl) : FunctionSummary :=
  let node := t.node? f.node
  let params := (f.view.params.toList.filterMap t.varDecl?).filterMap t.node?
  let args := splitArgs params.length
  { id := (node.map Node.rawId).getD ""
    name := (f.name? t).getD "<anonymous>"
    returnType := f.resultType?
    argCount := params.length
    paramNames := params.map fun p => p.name?.getD ""
    paramTypes := params.map fun p => TypeName.unqualified (p.declaredType?.getD "")
    paramConst := params.map Node.isConst
    inputs := args.1
    outputs := args.2
    hasBody := f.isDefinition
    location := (node.bind Node.location?).bind Location.fileAndLine? }

end FunctionDecl

namespace LoopStmt

/-- The summary of a loop. -/
def summary (t : Tree) (l : LoopStmt) : LoopSummary :=
  let node := t.node? l.node
  let rawId (i : NodeId) : String := ((t.node? i).map Node.rawId).getD ""
  { id := (node.map Node.rawId).getD ""
    kind := (node.map fun n => n.kind.tag).getD ""
    basic := l.isBasic
    lowerBound := l.lowerBound?.map rawId
    upperBound := l.upperBound?.map rawId
    step := l.step?.map rawId
    varDecls := l.view.varDecls.size
    calls := l.view.calls.size
    breaks := l.view.breaks.size }

end LoopStmt

/-- Why no function can be chosen. -/
inductive ExtractionError where
  | notFound (name : String)
  | noDefinition
  | ambiguous
  deriving DecidableEq, Repr, Inhabited

/-- The wording of an error. -/
def ExtractionError.message : ExtractionError → String
  | notFound name => s!"Function `{name}` not found"
  | noDefinition => "No function definitions found"
  | ambiguous => "Multiple symbols found, cannot choose the target without a name"

namespace TranslationUnit

/-- The summary of a unit: its functions, then its `for`, `while` and `do` loops. -/
def summary (u : TranslationUnit) : UnitSummary where
  functions := u.functions.map fun f => f.summary u.tree
  loops := (u.forLoops ++ u.whileLoops ++ u.doLoops).map fun l => l.summary u.tree

/-- The function that is meant: the one with the given name, or without a name the only definition.
-/
def chooseFunction (u : TranslationUnit) (target : Option String) :
    Except ExtractionError FunctionDecl :=
  match target with
  | some name =>
    match u.functionNamed? name with
    | some f => .ok f
    | none => .error (.notFound name)
  | none =>
    match u.functions.filter FunctionDecl.isDefinition with
    | [] => .error .noDefinition
    | [f] => .ok f
    | _ :: _ :: _ => .error .ambiguous

/-- The summary of the function that is meant. -/
def extractArguments (u : TranslationUnit) (target : Option String) :
    Except ExtractionError FunctionSummary :=
  (u.chooseFunction target).map fun f => f.summary u.tree

end TranslationUnit

end AstDump
