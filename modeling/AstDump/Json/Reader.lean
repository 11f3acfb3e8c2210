import AstDump.Json.Scalar

/-!
# Reading a JSON text

The reader descends into containers; the number of levels that it may still open is given to it, so
that its recursion is bounded by the nesting of the text and not by its length.

* `Json.foldSequence` : items between an opening and a closing byte, with commas between them;
* `Json.readValue`    : a value that opens at most so many containers at once;
* `Json.readCapped`   : a whole text with such a bound;
* `Json.read`         : a whole text of any nesting;
* `Json.skipValue`    : past a value that nobody asked for, checking only its form.
-/

namespace AstDump

namespace Json

/-! ## Sequences -/

/-- Where the next item of a sequence starts, or nothing at the closing byte. Items after the first
are preceded by a comma, and after a comma the sequence does not close. -/
def nextItem (close : UInt8) (first : Bool) (bs : Bytes) : Except Fault (Option Bytes) :=
  match skipBlanks bs with
  | [] => .error .unfinished
  | b :: rest =>
    if b = close then .ok none
    else if first then .ok (some (b :: rest))
    else if b = Byte.comma then
      match skipBlanks rest with
      | [] => .error .unfinished
      | c :: rest => if c = close then .error .malformed else .ok (some (c :: rest))
    else .error .malformed

/-- The items of a sequence from where it stands, each read by `step` on top of what was read before
it. The bound on their number is never reached when it exceeds the length of the text. -/
def foldItems {σ : Type} (close : UInt8) (step : σ → Reader σ) :
    (bound : Nat) → (first : Bool) → σ → Reader σ
  | 0, _, _, _ => .error .malformed
  | n + 1, first, acc, bs => do
    match ← nextItem close first bs with
    | none => return (acc, (skipBlanks bs).tail)
    | some item =>
      let (acc, rest) ← step acc item
      foldItems close step n false acc rest

/-- The items of a sequence, after its opening byte and up to its closing one. -/
def foldSequence {σ : Type} (bound : Nat) (close : UInt8) (step : σ → Reader σ) (init : σ) :
    Reader σ :=
  foldItems close step bound true init

/-- An item on top of those before it, the last in front. -/
def readItem {α : Type} (item : Reader α) (items : List α) : Reader (List α) := fun bs => do
  let (v, rest) ← item bs
  return (v :: items, rest)

/-- The items of a list. -/
def readItems {α : Type} (bound : Nat) (item : Reader α) : Reader (List α) := fun bs => do
  let (items, rest) ← foldSequence bound Byte.closeBracket (readItem item) [] bs
  return (items.reverse, rest)

/-- The colon between a key and its value. -/
def readColon (bs : Bytes) : Except Fault Bytes :=
  match skipBlanks bs with
  | [] => .error .unfinished
  | b :: rest => if b = Byte.colon then .ok rest else .error .malformed

/-- The key of a member, with its quotes, read by `key` after the opening one. -/
def readKey {α : Type} (key : Reader α) : Reader α
  | Byte.quote :: rest => key rest
  | _ => .error .malformed

/-! ## Values -/

/-- What becomes of the scalars of a value. -/
structure ScalarReaders (α : Type) where
  string : Reader α
  number : Reader α
  literal : Json → α

/-- A value, with the readers for its scalars and for the insides of lists and of objects given. -/
def readValueWith {α : Type} (scalars : ScalarReaders α) (list object : Reader α) :
    Reader α := fun bs =>
  match skipBlanks bs with
  | [] => .error .unfinished
  | b :: rest =>
    if b = Byte.openBracket then list rest
    else if b = Byte.openBrace then object rest
    else if b = Byte.quote then scalars.string rest
    else if b = Byte.minus ∨ Byte.isDigit b then scalars.number (b :: rest)
    else if b = Byte.lowerN then readLiteral (scalars.literal null) (bytesOf "ull") rest
    else if b = Byte.lowerT then readLiteral (scalars.literal (bool true)) (bytesOf "rue") rest
    else if b = Byte.lowerF then readLiteral (scalars.literal (bool false)) (bytesOf "alse") rest
    else .error .malformed

/-- A container where no more may be opened. -/
def refuse {α : Type} : Reader α := fun _ => .error .overNested

/-- Scalars are kept. -/
def keepScalars : ScalarReaders Json where
  string := fun bs => do
    let (s, rest) ← readString bs
    return (str s, rest)
  number := readNumber
  literal := id

/-- A member on top of those before it: of two values under one key the later counts. -/
def readMember (value : Reader Json) (members : Members) : Reader Members := fun bs => do
  let (key, rest) ← readKey readString bs
  let (v, rest) ← value (← readColon rest)
  return (members.insert key v, rest)

/-- The inside of a list as a value. -/
def readList (bound : Nat) (value : Reader Json) : Reader Json := fun bs => do
  let (items, rest) ← readItems bound value bs
  return (arr items, rest)

/-- The inside of an object as a value. -/
def readObject (bound : Nat) (value : Reader Json) : Reader Json := fun bs => do
  let (members, rest) ← foldSequence bound Byte.closeBrace (readMember value) [] bs
  return (obj members, rest)

/-- A value that opens at most `levels` containers at once, none of which has as many items as the
bound. -/
def readValue (bound : Nat) : (levels : Nat) → Reader Json
  | 0 => readValueWith keepScalars refuse refuse
  | levels + 1 =>
    readValueWith keepScalars
      (readList bound (readValue bound levels)) (readObject bound (readValue bound levels))

/-- After the value of a text only blanks may stand. -/
def expectEnd (bs : Bytes) : Except Fault Unit :=
  if (skipBlanks bs).isEmpty then .ok () else .error .malformed

/-- The value of a text that opens at most `levels` containers at once. -/
def readCapped (levels : Nat) (text : Bytes) : Except Fault Json := do
  let (v, rest) ← readValue (text.length + 1) levels text
  expectEnd rest
  return v

/-- The value of a text. Every container takes a byte to open, so the length of the text bounds
their number. -/
def read (text : Bytes) : Except Fault Json := readCapped text.length text

/-! ## Values that are skipped -/

/-- Past a string, after its opening quote. Escapes are checked for their form only: neither
surrogates nor the encoding matter in a text that is not kept. -/
def skipString : Reader Unit
  | [] => .error .unfinished
  | b :: rest =>
    if b = Byte.quote then .ok ((), rest)
    else if b < Byte.space then .error .malformed
    else if b ≠ Byte.backslash then skipString rest
    else match rest with
      | [] => .error .unfinished
      | Byte.lowerU :: w :: x :: y :: z :: rest =>
        match hexWord? w x y z with
        | some _ => skipString rest
        | none => .error .malformed
      | Byte.lowerU :: _ => .error .unfinished
      | e :: rest =>
        match shortEscape? e with
        | some _ => skipString rest
        | none => .error .malformed

/-- Past at least one digit. -/
def skipDigits (bs : Bytes) : Except Fault Bytes :=
  match bs with
  | b :: rest => if Byte.isDigit b then .ok (rest.dropWhile Byte.isDigit) else .error .malformed
  | [] => .error .malformed

/-- Past an exponent, if one stands here. -/
def skipExponent (bs : Bytes) : Except Fault Bytes :=
  match bs with
  | Byte.lowerE :: rest => skipDigits (afterSign rest)
  | Byte.upperE :: rest => skipDigits (afterSign rest)
  | _ => .ok bs
where
  /-- Past the sign of an exponent, if it has one. -/
  afterSign : Bytes → Bytes
    | Byte.plus :: rest => rest
    | Byte.minus :: rest => rest
    | bs => bs

/-- Past the minus sign of a number, if it has one. -/
def skipMinus : Bytes → Bytes
  | Byte.minus :: rest => rest
  | bs => bs

/-- Past the digits before the point. A zero stands alone. -/
def skipWhole : Bytes → Except Fault Bytes
  | 0x30 :: rest => if (rest.takeWhile Byte.isDigit).isEmpty then .ok rest else .error .malformed
  | bs => skipDigits bs

/-- Past a fraction, if one stands here. -/
def skipFraction : Bytes → Except Fault Bytes
  | Byte.point :: rest => skipDigits rest
  | bs => .ok bs

/-- Past a number. Its size does not matter, and one that is cut off by the end of the text is
malformed. -/
def skipNumber : Reader Unit := fun bs => do
  let fraction ← skipWhole (skipMinus bs)
  let exponent ← skipFraction fraction
  return ((), ← skipExponent exponent)

/-- Scalars are skipped. -/
def skipScalars : ScalarReaders Unit where
  string := skipString
  number := skipNumber
  literal := fun _ => ()

/-- Past a member. -/
def skipMember (value : Reader Unit) : Reader Unit := fun bs => do
  let (_, rest) ← readKey skipString bs
  value (← readColon rest)

/-- Past a value that opens at most `levels` containers at once, none of which has as many items as
the bound. -/
def skipValue (bound : Nat) : (levels : Nat) → Reader Unit
  | 0 => readValueWith skipScalars refuse refuse
  | levels + 1 =>
    readValueWith skipScalars
      (foldSequence bound Byte.closeBracket (fun _ => skipValue bound levels) ())
      (foldSequence bound Byte.closeBrace (fun _ => skipMember (skipValue bound levels)) ())

end Json

end AstDump
