import AstDump.Json.Record

/-!
# Places in the source

A node's place is given by any of five numbers and names. A place inside a macro is given twice;
where the macro is used comes before where it is written.

* `Location.ofJson?`, `Location.toJson` : between places and their records;
* `SourceRange.ofJson?`                 : a first and a last place.
-/

namespace AstDump

/-- A place in the source. -/
structure Location where
  offset : Option Nat
  file : Option String
  line : Option Nat
  col : Option Nat
  tokLen : Option Nat
  deriving DecidableEq, Repr, Inhabited

namespace Location

/-- Nothing is known about the place. -/
def IsEmpty (l : Location) : Prop :=
  l.offset = none ∧ l.file = none ∧ l.line = none ∧ l.col = none ∧ l.tokLen = none

instance (l : Location) : Decidable l.IsEmpty := by unfold IsEmpty; infer_instance

/-- The keys of a place's record, in order. -/
def fieldNames : List String := ["offset", "file", "line", "col", "tokLen"]

/-- The place of a record; a field of the wrong type or out of range spoils it. -/
def ofRecord? (record : Json) : Option Location := do
  match ← record.fields? fieldNames with
  | [offset, file, line, col, tokLen] =>
    return {
      offset := ← Json.optional (Json.natBelow? Json.words64) offset
      file := ← Json.optional Json.text? file
      line := ← Json.optional (Json.natBelow? Json.words32) line
      col := ← Json.optional (Json.natBelow? Json.words32) col
      tokLen := ← Json.optional (Json.natBelow? Json.words32) tokLen }
  | _ => none

/-- The record of the place that counts: where a macro is used, else where it is written, else the
record itself. -/
def target (members : Members) : Json :=
  ((members.get? "expansionLoc").or (members.get? "spellingLoc")).getD (.obj members)

/-- The place that an object gives, unless nothing is known about it. -/
def ofJson? : Json → Option Location
  | .obj members => (ofRecord? (target members)).filter fun l => ¬ l.IsEmpty
  | _ => none

/-- The record of a place: all five keys, null where nothing is known. -/
def toJson (l : Location) : Json := .obj [
  ("col", Json.ofOption Json.nat l.col),
  ("file", Json.ofOption Json.str l.file),
  ("line", Json.ofOption Json.nat l.line),
  ("offset", Json.ofOption Json.nat l.offset),
  ("tokLen", Json.ofOption Json.nat l.tokLen)]

end Location

/-- The first and the last place of a node. -/
structure SourceRange where
  first : Option Location
  last : Option Location
  deriving DecidableEq, Repr, Inhabited

/-- The range that an object gives, if it gives at least one of its ends. -/
def SourceRange.ofJson? (v : Json) : Option SourceRange :=
  let first := (v.member? "begin").bind Location.ofJson?
  let last := (v.member? "end").bind Location.ofJson?
  if first.isNone ∧ last.isNone then none else some ⟨first, last⟩

end AstDump
