import AstDump.Json.Printer
import AstDump.Json.Scalar
import AstDump.Kind

/-!
# What can be wrong with a dump

A structural error carries the path of the value that could not be decoded.

* `Path.text`           : the steps of a path, `<root>` when there is none;
* `DecodeError.message` : the wording of each error;
* `DecodeError.path?`   : where the error lies.
-/

namespace AstDump

/-- One step of a path: a node, or an item of the list that holds a node's children. -/
inductive PathStep where
  | node (kind : Kind) (rawId : String)
  | item (field : String) (index : Nat)
  deriving DecidableEq, Repr, Inhabited

/-- The text of a step. -/
def PathStep.text : PathStep → String
  | node kind rawId => kind.tag ++ "#" ++ rawId
  | item field index => field ++ "[" ++ String.ofList (Nat.toDigits 10 index) ++ "]"

/-- The steps from the root of a dump to a value. -/
abbrev Path := List PathStep

namespace Path

/-- The steps with slashes between them. -/
def text (path : List PathStep) : String :=
  if path.isEmpty then "<root>" else "/".intercalate (path.map PathStep.text)

end Path

/-- The shape of a value that is not a record. -/
inductive Shape where
  | null
  | boolean
  | number (text : String)
  | string
  | list (length : Nat)
  | object
  deriving DecidableEq, Repr, Inhabited

namespace Shape

/-- The shape of a value. -/
def ofJson : Json → Shape
  | .null => null
  | .bool _ => boolean
  | .int n => number (String.ofList (Json.intChars n))
  | .float x => number x.text
  | .str _ => string
  | .arr items => list items.length
  | .obj _ => object

/-- The shape in words. -/
def text : Shape → String
  | null => "null"
  | boolean => "a boolean"
  | number t => "number " ++ t
  | string => "a string"
  | list n => "a list of " ++ String.ofList (Nat.toDigits 10 n)
  | object => "an object"

end Shape

/-- The fields that every record has. -/
inductive RequiredField where
  | id
  | kind
  deriving DecidableEq, Repr, Inhabited

namespace RequiredField

/-- The key of the field. -/
def key : RequiredField → String
  | id => "id"
  | kind => "kind"

/-- What the field has to hold. -/
def expected : RequiredField → String
  | id => "a string or number"
  | kind => "a non-empty string"

end RequiredField

/-- Why a dump cannot be decoded. -/
inductive DecodeError where
  /-- A value that has to be a node record is none. -/
  | notARecord (path : Path) (found : Shape)
  /-- A record has no id or no kind. -/
  | missingField (path : Path) (field : RequiredField)
  /-- The id or the kind of a record is of the wrong type. -/
  | invalidField (path : Path) (field : RequiredField)
  /-- The field that holds a node's children is not a list. -/
  | malformedChildren (path : Path) (rawId : String) (kind : Kind)
  /-- A record lies deeper than the limit. -/
  | tooDeep (path : Path) (limit : Nat)
  /-- The text is not JSON. -/
  | notJson (fault : Json.Fault)
  deriving DecidableEq, Repr, Inhabited

namespace DecodeError

/-- The path of the value that could not be decoded; a text that is not JSON has none. -/
def path? : DecodeError → Option Path
  | notARecord path _ => some path
  | missingField path _ => some path
  | invalidField path _ => some path
  | malformedChildren path _ _ => some path
  | tooDeep path _ => some path
  | notJson _ => none

/-- The wording of an error. -/
def message : DecodeError → String
  | notARecord path found => s!"expected a node record at {Path.text path}, found {found.text}"
  | missingField path field => s!"node at {Path.text path} has no `{field.key}` field"
  | invalidField path field =>
    s!"field `{field.key}` of node at {Path.text path} must be {field.expected}"
  | malformedChildren path rawId kind =>
    s!"children of {kind.tag} node {rawId} at {Path.text path} are not a list"
  | tooDeep path limit => s!"nesting deeper than {limit} levels at {Path.text path}"
  | notJson _ => "dump is not valid JSON"

end DecodeError

end AstDump
