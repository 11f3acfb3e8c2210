import AstDump.View

/-!
# Looking up by position

A list of a unit, a function, a compound statement or a loop is asked for its element at a position.
An empty list is told apart from a position past the end.

* `ListName`            : the lists that can be asked;
* `LookupError.message` : what is answered when there is no such element;
* `pick`                : the element at a position.
-/

namespace AstDump

/-- The lists that can be asked for an element. -/
inductive ListName where
  | functions
  | compoundStatements
  | forLoops
  | whileLoops
  | doLoops
  | parameters
  | variableDeclarations
  | calls
  | breakStatements
  deriving DecidableEq, Repr, Inhabited

/-- The name of a list in words. -/
def ListName.text : ListName → String
  | functions => "functions"
  | compoundStatements => "compound statements"
  | forLoops => "for loops"
  | whileLoops => "while loops"
  | doLoops => "do loops"
  | parameters => "parameters"
  | variableDeclarations => "variable declarations"
  | calls => "calls"
  | breakStatements => "break statements"

/-- Why a list has no element at a position. -/
inductive LookupError where
  | empty (list : ListName)
  | outOfRange (list : ListName) (index length : Nat)
  deriving DecidableEq, Repr, Inhabited

/-- The wording of an error. -/
def LookupError.message : LookupError → String
  | empty list => s!"no {list.text} available"
  | outOfRange list index length => s!"{list.text} index {index} out of range (len {length})"

/-- The element of a list at a position. -/
def pick (list : ListName) (ids : Array NodeId) (index : Nat) : Except LookupError NodeId :=
  if ids.isEmpty then .error (.empty list)
  else match ids[index]? with
    | some i => .ok i
    | none => .error (.outOfRange list index ids.size)

/-- The element of a list at a position, as something that its node is; a node that is not counts as
none. -/
def pickAs {α : Type} (list : ListName) (ids : Array NodeId) (as? : NodeId → Option α)
    (index : Nat) : Except LookupError α := do
  match as? (← pick list ids index) with
  | some a => return a
  | none => throw (.empty list)

end AstDump
