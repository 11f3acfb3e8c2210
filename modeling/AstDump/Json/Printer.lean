import AstDump.Json.Basic
import AstDump.Number.Shortest

/-!
# JSON text of a value

The compact form: no blanks, members in the order in which they stand, and in strings only the
quote, the backslash and the control characters escaped.

* `NumberLayout`       : how the digits of a double are laid out;
* `Binary64.text`      : the text of a double;
* `Json.compact`       : the compact text of a value.
-/

namespace AstDump

/-- Where the plain notation of a double ends: a number `d.ddd · 10 ^ e` is written plainly for
`plainFrom ≤ e < plainUpTo`, and as `d.ddde±x` otherwise. -/
structure NumberLayout where
  plainFrom : Int
  plainUpTo : Int
  deriving DecidableEq, Repr

/-- Doubles in JSON text are written plainly from `0.00001` up to sixteen digits before the point.
-/
def NumberLayout.json : NumberLayout := ⟨-5, 16⟩

namespace Decimal

/-- Plain notation: digits on both sides of the point, a zero where a side has none. -/
def plain (x : Decimal) : List Char :=
  if x.point ≤ 0 then
    '0' :: '.' :: (List.replicate (-x.point).toNat '0' ++ x.digits)
  else
    let n := x.point.toNat
    let whole := x.digits.take n ++ List.replicate (n - x.digits.length) '0'
    let fraction := x.digits.drop n
    whole ++ '.' :: (if fraction.isEmpty then ['0'] else fraction)

/-- Scientific notation: one digit before the point, and an exponent that always has a sign. -/
def scientific (x : Decimal) : List Char :=
  let e := x.point - 1
  let sign := if e < 0 then '-' else '+'
  let exponent := 'e' :: sign :: Nat.toDigits 10 e.natAbs
  match x.digits with
  | [] => '0' :: exponent
  | [d] => d :: exponent
  | d :: rest => d :: '.' :: (rest ++ exponent)

/-- The digits laid out plainly or scientifically, as the layout says. -/
def chars (layout : NumberLayout) (x : Decimal) : List Char :=
  let e := x.point - 1
  if layout.plainFrom ≤ e ∧ e < layout.plainUpTo then x.plain else x.scientific

end Decimal

/-- The text of a double: the shortest digits that read back, and always a point or an exponent. -/
def Binary64.chars (x : Binary64) : List Char :=
  let magnitude := if x.mantissa = 0 then ['0', '.', '0'] else x.shortest.chars .json
  if x.negative then '-' :: magnitude else magnitude

/-- The text of a double. -/
def Binary64.text (x : Binary64) : String := String.ofList x.chars

namespace Json

/-- The lower-case hexadecimal digit of a number below sixteen. -/
def hexDigit (n : Nat) : Char := (Nat.toDigits 16 n).headD '0'

/-- One character inside a string. -/
def escapeChar (c : Char) : List Char :=
  if c = '"' then ['\\', '"']
  else if c = '\\' then ['\\', '\\']
  else if c = '\n' then ['\\', 'n']
  else if c = '\r' then ['\\', 'r']
  else if c = '\t' then ['\\', 't']
  else if c.toNat = 8 then ['\\', 'b']
  else if c.toNat = 12 then ['\\', 'f']
  else if c.toNat < 32 then ['\\', 'u', '0', '0', hexDigit (c.toNat / 16), hexDigit (c.toNat % 16)]
  else [c]

/-- The characters of a string's inside, before `rest`. -/
def escapeOnto (cs rest : List Char) : List Char :=
  cs.foldr (fun c rest => escapeChar c ++ rest) rest

/-- A string between quotes, before `rest`. -/
def quoteOnto (s : String) (rest : List Char) : List Char :=
  '"' :: escapeOnto s.toList ('"' :: rest)

/-- A whole number in decimal. -/
def intChars (n : Int) : List Char :=
  if n < 0 then '-' :: Nat.toDigits 10 n.natAbs else Nat.toDigits 10 n.natAbs

mutual

/-- The compact text of a value, before `rest`. -/
def writeOnto : Json → (rest : List Char) → List Char
  | null, rest => 'n' :: 'u' :: 'l' :: 'l' :: rest
  | bool true, rest => 't' :: 'r' :: 'u' :: 'e' :: rest
  | bool false, rest => 'f' :: 'a' :: 'l' :: 's' :: 'e' :: rest
  | int n, rest => intChars n ++ rest
  | float x, rest => x.chars ++ rest
  | str s, rest => quoteOnto s rest
  | arr [], rest => '[' :: ']' :: rest
  | arr (v :: vs), rest => '[' :: v.writeOnto (writeItems vs rest)
  | obj [], rest => '\x7b' :: '\x7d' :: rest
  | obj ((k, v) :: vs), rest => '\x7b' :: quoteOnto k (':' :: v.writeOnto (writeMembers vs rest))

/-- The further items of a list and its closing bracket, before `rest`. -/
def writeItems : List Json → (rest : List Char) → List Char
  | [], rest => ']' :: rest
  | v :: vs, rest => ',' :: v.writeOnto (writeItems vs rest)

/-- The further members of an object and its closing brace, before `rest`. -/
def writeMembers : List (String × Json) → (rest : List Char) → List Char
  | [], rest => '\x7d' :: rest
  | (k, v) :: vs, rest => ',' :: quoteOnto k (':' :: v.writeOnto (writeMembers vs rest))

end

/-- The compact text of a value. -/
def compact (v : Json) : String := String.ofList (v.writeOnto [])

/-- The text of a number: in decimal, or as a double. -/
def numberText? : Json → Option String
  | int n => some (String.ofList (intChars n))
  | float x => some x.text
  | _ => none

end Json

end AstDump
