import AstDump.Decode.Record

/-!
# Masking malformed items

What recovery drops can be taken out of a dump beforehand: every malformed item becomes a
placeholder.

* `isMalformed` : a value that is no record at a depth;
* `mask`        : a dump with its malformed items replaced.
-/

namespace AstDump

/-- The value is no node record at this depth: it lies too deep, is not an object, lacks a valid id
or kind, or its children field is not a list. -/
def isMalformed (options : Options) (depth : Nat) (raw : Json) : Bool :=
  match Record.read options [] depth raw with
  | .error _ => true
  | .ok r => (r.items? options).isNone

/-- The members with the value under a key replaced. -/
def Members.replace (key : String) (value : Json) (members : Members) : Members :=
  members.map fun m => if m.1 = key then (key, value) else m

/-- A record with the list of its children changed item by item. -/
def mapItems (options : Options) (f : Json → Json) : Json → Json
  | .obj members =>
    match Record.childrenEntry? options ⟨members, "", .other ""⟩ with
    | some (field, .arr items) => .obj (Members.replace field (.arr (items.map f)) members)
    | _ => .obj members
  | raw => raw

/-- A record, where so many levels are left, with every malformed item below it replaced by a
placeholder. -/
def maskLevels (options : Options) : (levels : Nat) → Json → Json
  | 0, raw => raw
  | levels + 1, raw =>
    mapItems options (fun item =>
      if isMalformed options (options.maxDepth + 1 - levels) item then .obj []
      else maskLevels options levels item) raw

/-- A dump with every malformed item replaced by a placeholder. -/
def mask (options : Options) (raw : Json) : Json := maskLevels options (options.maxDepth + 1) raw

end AstDump
