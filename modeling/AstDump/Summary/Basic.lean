import AstDump.Json.Record

/-!
# Summaries

The summary of a unit tells of its functions and loops what other tools need, as a record that can
be written as JSON and read back.

* `FunctionSummary`, `LoopSummary`, `UnitSummary`            : the summaries;
* `UnitSummary.toJson`, `UnitSummary.ofJson?` and the others : between summaries and values.
-/

namespace AstDump

/-- The summary of a function. -/
structure FunctionSummary where
  id : String
  name : String
  returnType : Option String
  argCount : Nat
  paramNames : List String
  paramTypes : List String
  paramConst : List Bool
  inputs : Nat
  outputs : Nat
  hasBody : Bool
  location : Option String
  deriving DecidableEq, Repr, Inhabited

/-- The summary of a loop. -/
structure LoopSummary where
  id : String
  kind : String
  basic : Bool
  lowerBound : Option String
  upperBound : Option String
  step : Option String
  varDecls : Nat
  calls : Nat
  breaks : Nat
  deriving DecidableEq, Repr, Inhabited

/-- The summary of a unit. -/
structure UnitSummary where
  functions : List FunctionSummary
  loops : List LoopSummary
  deriving DecidableEq, Repr, Inhabited

namespace Json

/-- A list of texts as a value. -/
def texts (ss : List String) : Json := arr (ss.map str)

/-- A count, which is a 64-bit word. -/
def count? (v : Json) : Option Nat := natBelow? words64 v

end Json

namespace FunctionSummary

/-- The keys of the record, in order. -/
def fieldNames : List String := [
  "id", "name", "return_type", "nr_args", "param_names", "param_types", "param_const", "arg_num_in",
  "arg_num_out", "has_body", "location"]

/-- The summary as a value, its keys in order. -/
def toJson (s : FunctionSummary) : Json := .obj [
  ("arg_num_in", .nat s.inputs),
  ("arg_num_out", .nat s.outputs),
  ("has_body", .bool s.hasBody),
  ("id", .str s.id),
  ("location", Json.ofOption .str s.location),
  ("name", .str s.name),
  ("nr_args", .nat s.argCount),
  ("param_const", .arr (s.paramConst.map .bool)),
  ("param_names", .texts s.paramNames),
  ("param_types", .texts s.paramTypes),
  ("return_type", Json.ofOption .str s.returnType)]

/-- The summary that a value is. -/
def ofJson? (v : Json) : Option FunctionSummary := do
  match ← v.fields? fieldNames with
  | [id, name, returnType, argCount, paramNames, paramTypes, paramConst, inputs, outputs, hasBody,
      location] =>
    return {
      id := ← Json.required Json.text? id
      name := ← Json.required Json.text? name
      returnType := ← Json.optional Json.text? returnType
      argCount := ← Json.required Json.count? argCount
      paramNames := ← Json.required (Json.list? Json.text?) paramNames
      paramTypes := ← Json.required (Json.list? Json.text?) paramTypes
      paramConst := ← Json.required (Json.list? Json.bool?) paramConst
      inputs := ← Json.required Json.count? inputs
      outputs := ← Json.required Json.count? outputs
      hasBody := ← Json.required Json.bool? hasBody
      location := ← Json.optional Json.text? location }
  | _ => none

end FunctionSummary

namespace LoopSummary

/-- The keys of the record, in order. -/
def fieldNames : List String :=
  ["id", "kind", "basic", "lower_bound", "upper_bound", "step", "var_decls", "calls", "breaks"]

/-- The summary as a value, its keys in order. -/
def toJson (s : LoopSummary) : Json := .obj [
  ("basic", .bool s.basic),
  ("breaks", .nat s.breaks),
  ("calls", .nat s.calls),
  ("id", .str s.id),
  ("kind", .str s.kind),
  ("lower_bound", Json.ofOption .str s.lowerBound),
  ("step", Json.ofOption .str s.step),
  ("upper_bound", Json.ofOption .str s.upperBound),
  ("var_decls", .nat s.varDecls)]

/-- The summary that a value is. -/
def ofJson? (v : Json) : Option LoopSummary := do
  match ← v.fields? fieldNames with
  | [id, kind, basic, lowerBound, upperBound, step, varDecls, calls, breaks] =>
    return {
      id := ← Json.required Json.text? id
      kind := ← Json.required Json.text? kind
      basic := ← Json.required Json.bool? basic
      lowerBound := ← Json.optional Json.text? lowerBound
      upperBound := ← Json.optional Json.text? upperBound
      step := ← Json.optional Json.text? step
      varDecls := ← Json.required Json.count? varDecls
      calls := ← Json.required Json.count? calls
      breaks := ← Json.required Json.count? breaks }
  | _ => none

end LoopSummary

namespace UnitSummary

/-- The keys of the record, in order. -/
def fieldNames : List String := ["functions", "loops"]

/-- The summary as a value. -/
def toJson (s : UnitSummary) : Json := .obj [
  ("functions", .arr (s.functions.map FunctionSummary.toJson)),
  ("loops", .arr (s.loops.map LoopSummary.toJson))]

/-- The summary that a value is. -/
def ofJson? (v : Json) : Option UnitSummary := do
  match ← v.fields? fieldNames with
  | [functions, loops] =>
    return {
      functions := ← Json.required (Json.list? FunctionSummary.ofJson?) functions
      loops := ← Json.required (Json.list? LoopSummary.ofJson?) loops }
  | _ => none

end UnitSummary

end AstDump
