import AstDump.Json.Scalar

/-!
# Nesting of a text

How deep the brackets and braces of a text go can be told by one scan, before any of it is read as
JSON, and of any text, well formed or not. Brackets inside strings do not count.

* `NestingScan.step` : the scan over one byte;
* `textNesting`      : the greatest number of brackets and braces open at once.
-/

namespace AstDump

/-- Where the scan stands. -/
inductive ScanPlace where
  | outside
  | inString
  | afterBackslash
  deriving DecidableEq, Repr, Inhabited

/-- The scan so far: where it stands, how many containers are open, and the most that were. -/
structure NestingScan where
  place : ScanPlace
  depth : Nat
  deepest : Nat
  deriving DecidableEq, Repr, Inhabited

namespace NestingScan

/-- At the start of a text nothing is open. -/
def start : NestingScan := ⟨.outside, 0, 0⟩

/-- The scan over one byte. A closing byte where nothing is open changes nothing. -/
def step (s : NestingScan) (b : UInt8) : NestingScan :=
  match s.place with
  | .afterBackslash => { s with place := .inString }
  | .inString =>
    if b = Byte.backslash then { s with place := .afterBackslash }
    else if b = Byte.quote then { s with place := .outside }
    else s
  | .outside =>
    if b = Byte.quote then { s with place := .inString }
    else if b = Byte.openBrace ∨ b = Byte.openBracket then
      { s with depth := s.depth + 1, deepest := max s.deepest (s.depth + 1) }
    else if b = Byte.closeBrace ∨ b = Byte.closeBracket then { s with depth := s.depth - 1 }
    else s

end NestingScan

/-- The greatest number of brackets and braces of a text that are open at once, outside its strings.
-/
def textNesting (text : Bytes) : Nat := (text.foldl NestingScan.step .start).deepest

end AstDump
