import AstDump.Decode.Walk
import AstDump.Json.Nesting
import AstDump.Json.Reader
import AstDump.Json.Record

/-!
# Decoding a dump's text

Before a text is read it is checked that it does not nest deeper than a dump within the depth limit
can: a record and its list of children for every level, and a few levels more for the attributes.

* `nestingAllowance` : how deep a text may nest;
* `parseDump`        : the value of a text;
* `decodeText`       : the unit of a text;
* `decodeBytes`      : the unit of a file's bytes;
* `decodeAll`        : the units of several dumps.
-/

namespace AstDump

/-- How deep the attributes of a node may nest. -/
def sideDataNesting : Nat := 8

/-- How deep a dump within the depth limit can nest. -/
def dumpNesting (maxDepth : Nat) : Nat := 2 * (maxDepth + 1) + sideDataNesting

/-- How deep the text of a dump may nest: as deep as a dump can, but worked out in 64-bit words,
which start again at zero. -/
def nestingAllowance (maxDepth : Nat) : Nat :=
  (2 * (maxDepth.toUInt64 + 1) + sideDataNesting.toUInt64).toNat

theorem nestingAllowance_eq (maxDepth : Nat) :
    nestingAllowance maxDepth = dumpNesting maxDepth % Json.words64 := by
  simp only [nestingAllowance, dumpNesting, sideDataNesting, Json.words64, UInt64.toNat_add,
    UInt64.toNat_mul, UInt64.toNat_ofNat, UInt64.toNat_ofNat']
  omega

theorem nestingAllowance_le (maxDepth : Nat) :
    nestingAllowance maxDepth ≤ dumpNesting maxDepth := by
  rw [nestingAllowance_eq]
  exact Nat.mod_le _ _

/-- The text may nest as deep as the dump can if a word can tell how deep that is. -/
theorem nestingAllowance_of_lt {maxDepth : Nat} (h : dumpNesting maxDepth < Json.words64) :
    nestingAllowance maxDepth = dumpNesting maxDepth := by
  rw [nestingAllowance_eq, Nat.mod_eq_of_lt h]

/-- The value of a dump's text. A text that nests too deep is refused whatever else is wrong with
it. -/
def parseDump (maxDepth : Nat) (text : Bytes) : Except DecodeError Json :=
  if nestingAllowance maxDepth < textNesting text then .error (.tooDeep [] maxDepth)
  else (Json.read text).mapError .notJson

/-- The unit of a dump's text. -/
def decodeText (options : Options) (text : String) : Except DecodeError TranslationUnit :=
  parseDump options.maxDepth (bytesOf text) >>= decode options

/-- The unit of a dump's bytes, which have to be UTF-8. -/
def decodeBytes (options : Options) (bytes : Bytes) : Except DecodeError TranslationUnit :=
  match Json.decodeBytes? bytes with
  | some text => decodeText options text
  | none => .error (.notJson .undecodable)

/-- The units of several dumps, each on its own. -/
def decodeAll (options : Options) (raws : List Json) : List (Except DecodeError TranslationUnit) :=
  raws.map (decode options)

end AstDump
