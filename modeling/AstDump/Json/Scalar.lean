import AstDump.Json.Basic

/-!
# Reading the scalars of a JSON text

A text is read as bytes, from left to right, and the first byte that cannot be right decides what is
reported: the text ends too early, or it is malformed. A reader takes the bytes from where it starts
and returns what it read with the bytes that follow.

* `Json.Fault`       : what can be wrong with a text;
* `Json.readString`  : a string, after its opening quote;
* `Json.readNumber`  : a number: exact if whole and in the range of 64-bit words, else a double;
* `Json.readLiteral` : the rest of a literal name.
-/

namespace AstDump

/-- A text as its bytes. -/
abbrev Bytes := List UInt8

/-- The bytes of a text. -/
def bytesOf (text : String) : Bytes := text.toByteArray.data.toList

namespace Byte

/-! ## The bytes that have a meaning in JSON -/

@[match_pattern] abbrev tab : UInt8 := 0x09
@[match_pattern] abbrev lineFeed : UInt8 := 0x0a
@[match_pattern] abbrev carriageReturn : UInt8 := 0x0d
@[match_pattern] abbrev space : UInt8 := 0x20
@[match_pattern] abbrev quote : UInt8 := 0x22
@[match_pattern] abbrev plus : UInt8 := 0x2b
@[match_pattern] abbrev comma : UInt8 := 0x2c
@[match_pattern] abbrev minus : UInt8 := 0x2d
@[match_pattern] abbrev point : UInt8 := 0x2e
@[match_pattern] abbrev slash : UInt8 := 0x2f
@[match_pattern] abbrev colon : UInt8 := 0x3a
@[match_pattern] abbrev upperE : UInt8 := 0x45
@[match_pattern] abbrev openBracket : UInt8 := 0x5b
@[match_pattern] abbrev backslash : UInt8 := 0x5c
@[match_pattern] abbrev closeBracket : UInt8 := 0x5d
@[match_pattern] abbrev lowerB : UInt8 := 0x62
@[match_pattern] abbrev lowerE : UInt8 := 0x65
@[match_pattern] abbrev lowerF : UInt8 := 0x66
@[match_pattern] abbrev lowerN : UInt8 := 0x6e
@[match_pattern] abbrev lowerR : UInt8 := 0x72
@[match_pattern] abbrev lowerT : UInt8 := 0x74
@[match_pattern] abbrev lowerU : UInt8 := 0x75
@[match_pattern] abbrev openBrace : UInt8 := 0x7b
@[match_pattern] abbrev closeBrace : UInt8 := 0x7d

/-- The blanks between tokens. -/
def isBlank (b : UInt8) : Bool := b == space || b == lineFeed || b == tab || b == carriageReturn

/-- The value of a decimal digit. -/
def digit? (b : UInt8) : Option Nat :=
  if 0x30 ≤ b ∧ b ≤ 0x39 then some (b.toNat - 0x30) else none

/-- A decimal digit. -/
def isDigit (b : UInt8) : Bool := (digit? b).isSome

/-- The value of a hexadecimal digit of either case. -/
def hexDigit? (b : UInt8) : Option Nat :=
  if 0x30 ≤ b ∧ b ≤ 0x39 then some (b.toNat - 0x30)
  else if 0x41 ≤ b ∧ b ≤ 0x46 then some (b.toNat - 0x41 + 10)
  else if 0x61 ≤ b ∧ b ≤ 0x66 then some (b.toNat - 0x61 + 10)
  else none

end Byte

namespace Json

/-- What can be wrong with a JSON text. -/
inductive Fault where
  /-- The text ends inside a value. -/
  | unfinished
  /-- No value goes on as the text does. -/
  | malformed
  /-- The value is JSON of another shape than was asked for. -/
  | mismatched
  /-- The bytes are not UTF-8. -/
  | undecodable
  /-- More containers are open than the reader was given levels for. -/
  | overNested
  deriving DecidableEq, Repr, Inhabited

/-- A reader: from the bytes ahead to what was read and the bytes after it. -/
abbrev Reader (α : Type) := Bytes → Except Fault (α × Bytes)

/-- The bytes after the blanks in front. -/
def skipBlanks (bs : Bytes) : Bytes := bs.dropWhile Byte.isBlank

/-- The rest of a literal name, such as `ull` after `n`. -/
def readLiteral {α : Type} (value : α) : Bytes → Reader α
  | [], bs => .ok (value, bs)
  | _ :: _, [] => .error .unfinished
  | c :: cs, b :: bs => if b = c then readLiteral value cs bs else .error .malformed

/-! ## Strings -/

/-- The number that four hexadecimal digits spell. -/
def hexWord? (a b c d : UInt8) : Option Nat := do
  return ((← Byte.hexDigit? a) * 16 + (← Byte.hexDigit? b)) * 256 +
    ((← Byte.hexDigit? c) * 16 + (← Byte.hexDigit? d))

/-- The byte that a two-byte escape stands for. -/
def shortEscape? : UInt8 → Option UInt8
  | Byte.quote => some Byte.quote
  | Byte.backslash => some Byte.backslash
  | Byte.slash => some Byte.slash
  | Byte.lowerB => some 0x08
  | Byte.lowerF => some 0x0c
  | Byte.lowerN => some Byte.lineFeed
  | Byte.lowerR => some Byte.carriageReturn
  | Byte.lowerT => some Byte.tab
  | _ => none

/-- First half of a surrogate pair. -/
def isHighSurrogate (n : Nat) : Bool := 0xd800 ≤ n && n ≤ 0xdbff

/-- Second half of a surrogate pair. -/
def isLowSurrogate (n : Nat) : Bool := 0xdc00 ≤ n && n ≤ 0xdfff

/-- The code point of a surrogate pair. -/
def pairPoint (high low : Nat) : Nat := (high - 0xd800) * 0x400 + (low - 0xdc00) + 0x10000

/-- Bytes in front of a reversed text, one character more. -/
def pushPoint (point : Nat) (acc : Bytes) : Bytes :=
  (String.utf8EncodeChar (Char.ofNat point)).reverse ++ acc

/-- The text that bytes spell in UTF-8. -/
def decodeBytes? (bs : Bytes) : Option String := String.fromUTF8? ⟨bs.toArray⟩

/-- The bytes of a string up to its closing quote, escapes replaced, in reverse before `acc`. -/
def stringBody (acc : Bytes) : Bytes → Except Fault (Bytes × Bytes)
  | [] => .error .unfinished
  | b :: rest =>
    if b = Byte.quote then .ok (acc.reverse, rest)
    else if b < Byte.space then .error .malformed
    else if b ≠ Byte.backslash then stringBody (b :: acc) rest
    else match rest with
      | [] => .error .unfinished
      | Byte.lowerU :: w :: x :: y :: z :: rest =>
        match hexWord? w x y z with
        | none => .error .malformed
        | some n =>
          if isLowSurrogate n then .error .malformed
          else if ¬ isHighSurrogate n then stringBody (pushPoint n acc) rest
          else match rest with
            | [] => .error .unfinished
            | Byte.backslash :: [] => .error .unfinished
            | Byte.backslash :: Byte.lowerU :: w :: x :: y :: z :: rest =>
              match hexWord? w x y z with
              | none => .error .malformed
              | some low =>
                if isLowSurrogate low then stringBody (pushPoint (pairPoint n low) acc) rest
                else .error .malformed
            | Byte.backslash :: Byte.lowerU :: _ => .error .unfinished
            | _ => .error .malformed
      | Byte.lowerU :: _ => .error .unfinished
      | e :: rest =>
        match shortEscape? e with
        | some c => stringBody (c :: acc) rest
        | none => .error .malformed

/-- A string, after its opening quote. -/
def readString : Reader String := fun bs => do
  let (body, rest) ← stringBody [] bs
  match decodeBytes? body with
  | some s => .ok (s, rest)
  | none => .error .malformed

/-! ## Numbers -/

/-- The greatest significand that is kept exactly. -/
def maxSignificand : Nat := 0xffffffffffffffff

/-- Digits before the point: as many as a 64-bit word holds are added to `kept`, and those after
them are only counted. -/
def wholeDigits (kept : Nat) : Bytes → Nat × Nat × Bytes
  | [] => (kept, 0, [])
  | b :: rest =>
    match Byte.digit? b with
    | none => (kept, 0, b :: rest)
    | some d =>
      if kept * 10 + d ≤ maxSignificand then wholeDigits (kept * 10 + d) rest
      else (kept, ((b :: rest).takeWhile Byte.isDigit).length, (b :: rest).dropWhile Byte.isDigit)

/-- Digits after the point: as many as a 64-bit word holds are added to `kept` and counted, and
those after them are dropped. -/
def fractionDigits (kept places : Nat) : Bytes → Nat × Nat × Bytes
  | [] => (kept, places, [])
  | b :: rest =>
    match Byte.digit? b with
    | none => (kept, places, b :: rest)
    | some d =>
      if kept * 10 + d ≤ maxSignificand then fractionDigits (kept * 10 + d) (places + 1) rest
      else (kept, places, (b :: rest).dropWhile Byte.isDigit)

/-- A reader goes on only at a digit. -/
def expectDigit : Bytes → Except Fault Unit
  | [] => .error .unfinished
  | b :: _ => if Byte.isDigit b then .ok () else .error .malformed

/-- The number that decimal digits spell. -/
def digitsValue (ds : Bytes) : Nat := ds.foldl (fun n b => n * 10 + (Byte.digit? b).getD 0) 0

/-- The sign of an exponent, if it has one, and whether it is a minus. -/
def exponentSign : Bytes → Bool × Bytes
  | Byte.plus :: rest => (false, rest)
  | Byte.minus :: rest => (true, rest)
  | bs => (false, bs)

/-- The exponent after its mark: an optional sign and digits. -/
def readExponent : Reader Int := fun bs => do
  let (negative, bs) := exponentSign bs
  expectDigit bs
  let n : Int := digitsValue (bs.takeWhile Byte.isDigit)
  return (if negative then -n else n, bs.dropWhile Byte.isDigit)

/-- An exponent with its mark, if one stands here, and zero if not. -/
def readTens : Reader Int
  | Byte.lowerE :: rest => readExponent rest
  | Byte.upperE :: rest => readExponent rest
  | bs => .ok (0, bs)

/-- The double that a significand and a power of ten spell; one that is too large is malformed. -/
def doubleOf (negative : Bool) (significand : Nat) (tens : Int) : Except Fault Json :=
  match Binary64.scale significand tens with
  | some x => .ok (float (x.withSign negative))
  | none => .error .malformed

/-- A double from its significand and what follows: an exponent, or nothing that belongs to it. -/
def readScaled (negative : Bool) (significand : Nat) (tens : Int) : Reader Json := fun bs => do
  let (e, bs) ← readTens bs
  return (← doubleOf negative significand (tens + e), bs)

/-- A number without fraction and exponent: whole where a signed or unsigned 64-bit word holds it.
Zero with a minus sign is a double. -/
def wholeNumber (negative : Bool) (n : Nat) : Except Fault Json :=
  if ¬ negative then .ok (int n)
  else if 0 < n ∧ n ≤ 0x8000000000000000 then .ok (int (-n))
  else doubleOf true n 0

/-- No digit follows a zero in front. -/
def expectNoLeadingZero : Bytes → Except Fault Unit
  | 0x30 :: b :: _ => if Byte.isDigit b then .error .malformed else .ok ()
  | _ => .ok ()

/-- A number from the digits before its point, of which `dropped` were only counted, and what
follows: a fraction, an exponent, both or neither. -/
def readAfterWhole (negative : Bool) (kept dropped : Nat) : Reader Json
  | Byte.point :: rest => do
    expectDigit rest
    let (kept, places, rest) := fractionDigits kept 0 rest
    readScaled negative kept (dropped - places) rest
  | Byte.lowerE :: rest => readScaled negative kept dropped (Byte.lowerE :: rest)
  | Byte.upperE :: rest => readScaled negative kept dropped (Byte.upperE :: rest)
  | bs =>
    if dropped = 0 then return (← wholeNumber negative kept, bs)
    else readScaled negative kept dropped bs

/-- A number from its first digit on. -/
def readUnsigned (negative : Bool) : Reader Json := fun bs => do
  expectDigit bs
  expectNoLeadingZero bs
  let (kept, dropped, bs) := wholeDigits 0 bs
  readAfterWhole negative kept dropped bs

/-- A number, with its sign if it has one. -/
def readNumber : Reader Json
  | Byte.minus :: rest => readUnsigned true rest
  | bs => readUnsigned false bs

end Json

end AstDump
