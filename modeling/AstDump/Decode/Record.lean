import AstDump.Decode.Error
import AstDump.Json.DecidableEq
import AstDump.Options.Basic

/-!
# Node records

A node record is an object with an id, a kind, and at most one field that holds its children; its
other fields are its attributes.

* `Record.read`           : a record with its id and kind, checked in a fixed order;
* `Record.childrenEntry?` : the field that holds the children;
* `Record.items?`         : the items of that field;
* `Record.attrs`          : all other fields.
-/

namespace AstDump

/-- An object that has the id and the kind of a node. -/
structure Record where
  members : Members
  rawId : String
  kind : Kind
  deriving DecidableEq, Repr, Inhabited

namespace Record

/-- The id of a record: a string, or a number as it is printed. -/
def readId (path : Path) (members : Members) : Except DecodeError String :=
  match members.get? RequiredField.id.key with
  | some (.str s) => .ok s
  | some v =>
    match v.numberText? with
    | some s => .ok s
    | none => .error (.invalidField path .id)
  | none => .error (.missingField path .id)

/-- The kind of a record: a string that is not empty. -/
def readKind (path : Path) (members : Members) : Except DecodeError Kind :=
  match members.get? RequiredField.kind.key with
  | some (.str s) => if s = "" then .error (.invalidField path .kind) else .ok (Kind.ofTag s)
  | some _ => .error (.invalidField path .kind)
  | none => .error (.missingField path .kind)

/-- The record that a value is, at a depth: the depth is checked first, then that the value is an
object, then its id, then its kind. -/
def read (options : Options) (path : Path) (depth : Nat) (raw : Json) : Except DecodeError Record :=
  if options.maxDepth < depth then .error (.tooDeep path options.maxDepth)
  else match raw with
    | .obj members => do
      let rawId ← readId path members
      let kind ← readKind path members
      return ⟨members, rawId, kind⟩
    | _ => .error (.notARecord path (.ofJson raw))

/-- The first of the children fields that the record has, with its value. -/
def childrenEntry? (options : Options) (r : Record) : Option (String × Json) :=
  options.childrenFields.findSome? fun field => (r.members.get? field).map fun v => (field, v)

/-- The items of the children field: none when the record has no such field, and undefined when the
field is not a list. -/
def items? (options : Options) (r : Record) : Option (List Json) :=
  match r.childrenEntry? options with
  | none => some []
  | some (_, .arr items) => some items
  | some _ => none

/-- The name of the children field; empty when there is none. -/
def childrenField (options : Options) (r : Record) : String :=
  ((r.childrenEntry? options).map Prod.fst).getD ""

/-- The fields that hold neither the id, the kind nor the children. -/
def attrs (options : Options) (r : Record) : Members :=
  let childrenKey := (r.childrenEntry? options).map Prod.fst
  r.members.filter fun m =>
    m.1 ≠ RequiredField.id.key ∧ m.1 ≠ RequiredField.kind.key ∧ some m.1 ≠ childrenKey

end Record

end AstDump
