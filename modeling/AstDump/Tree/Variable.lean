import AstDump.Tree.Basic
import AstDump.Type.Unqualified

/-!
# Variables

* `Tree.varDecl?`      : a node as a variable or parameter;
* `Node.isConst`        : its type is declared constant;
* `Tree.initializer?`   : the expression that it starts with;
* `Tree.initialValue?`  : the literal value of that expression, seen through casts and parentheses.
-/

namespace AstDump

/-- One of the words of the declared type is `const`. -/
def Node.isConst (n : Node) : Bool := (n.declaredType?.map TypeName.isConst).getD false

namespace Tree

/-- The node, if it is a variable or a parameter. -/
def varDecl? (t : Tree) (i : NodeId) : Option NodeId :=
  match t.node? i with
  | some n => if n.isVariable then some i else none
  | none => none

/-- The first child that is an expression. -/
def initializer? (t : Tree) (i : NodeId) : Option NodeId :=
  (t.childIds i).find? fun c => (t.kind? c).any Kind.isExpression

/-- The value written in an expression: its own or, through at most `n` casts and parentheses, that
of its first operand. -/
def writtenValue? (t : Tree) : (n : Nat) → NodeId → Option String
  | 0, _ => none
  | n + 1, i =>
    match t.node? i with
    | none => none
    | some e =>
      match e.valueText? with
      | some text => some text
      | none => if e.kind.isTransparent then e.childIds[0]?.bind (writtenValue? t n) else none

/-- The value that a variable starts with, where it is written out. No chain of operands is longer
than the number of nodes. -/
def initialValue? (t : Tree) (i : NodeId) : Option String :=
  (t.initializer? i).bind (t.writtenValue? t.size)

end Tree

end AstDump
