import AstDump.Json.Printer
import AstDump.Json.Reader
import AstDump.Json.Record
import AstDump.Options.Basic

/-!
# Reading options

Options are written as an object with any of four keys, or as a list of their values in order, the
last of which may be left out. The text is read from left to right straight into options, and the
first problem is the one reported: a value of the wrong type is reported where it starts, or where
it ends if it is a scalar.

* `OptionKey`          : the four options by name;
* `Options.readKeyed`  : options from the inside of an object, no key twice;
* `Options.readListed` : options from the inside of a list;
* `Options.ofText`     : options from a whole text; what is left out is as in `Options.default`;
* `Options.toJson`     : all four options as an object.
-/

namespace AstDump

/-- The options by name. -/
inductive OptionKey where
  | pointerWidth
  | maxDepth
  | childrenFields
  | recoverMalformed
  deriving DecidableEq, Repr, Inhabited

namespace OptionKey

/-- The key of an option. -/
def name : OptionKey → String
  | pointerWidth => "pointer_width"
  | maxDepth => "max_depth"
  | childrenFields => "children_fields"
  | recoverMalformed => "recover_malformed"

/-- All options, in the order in which a list gives them. -/
def all : List OptionKey := [pointerWidth, maxDepth, childrenFields, recoverMalformed]

/-- The option that a key names. -/
def ofName? (key : String) : Option OptionKey := all.find? fun k => k.name = key

end OptionKey

namespace Options

open Json (Fault Reader)

/-- What is wrong with a value that is not of the type that was asked for. Scalars are read to their
end first, and if they are malformed themselves, that is reported. -/
def mismatch {α : Type} : Reader α := fun bs => do
  let container : Reader Json := fun _ => .error .mismatched
  let _ ← Json.readValueWith Json.keepScalars container container bs
  throw .mismatched

/-- A whole number from zero up to a bound, the bound excluded. -/
def readNat (bound : Nat) : Reader Nat := fun bs =>
  match Json.skipBlanks bs with
  | b :: rest =>
    if b = Byte.minus ∨ Byte.isDigit b then do
      let (v, rest) ← Json.readNumber (b :: rest)
      match Json.natBelow? bound v with
      | some n => return (n, rest)
      | none => throw .mismatched
    else mismatch bs
  | [] => mismatch bs

/-- A boolean. -/
def readBool : Reader Bool := fun bs =>
  match Json.skipBlanks bs with
  | Byte.lowerT :: rest => Json.readLiteral true (bytesOf "rue") rest
  | Byte.lowerF :: rest => Json.readLiteral false (bytesOf "alse") rest
  | _ => mismatch bs

/-- A string. -/
def readText : Reader String := fun bs =>
  match Json.skipBlanks bs with
  | Byte.quote :: rest => Json.readString rest
  | _ => mismatch bs

/-- A list of strings. -/
def readTexts (bound : Nat) : Reader (List String) := fun bs =>
  match Json.skipBlanks bs with
  | Byte.openBracket :: rest => Json.readItems bound readText rest
  | _ => mismatch bs

/-- The options with the value of one read. -/
def readOption (bound : Nat) (key : OptionKey) (o : Options) : Reader Options := fun bs =>
  match key with
  | .pointerWidth => do
    let (n, rest) ← readNat Json.words32 bs
    return ({ o with pointerWidth := n }, rest)
  | .maxDepth => do
    let (n, rest) ← readNat Json.words64 bs
    return ({ o with maxDepth := n }, rest)
  | .childrenFields => do
    let (names, rest) ← readTexts bound bs
    return ({ o with childrenFields := names }, rest)
  | .recoverMalformed => do
    let (b, rest) ← readBool bs
    return ({ o with recoverMalformed := b }, rest)

/-- One member of an object, after those that gave the options `seen`. A key that was given before
is refused before its value is looked at; the values of other keys are skipped. -/
def readMember (bound : Nat) (state : List OptionKey × Options) :
    Reader (List OptionKey × Options) := fun bs => do
    let (seen, o) := state
    let (name, rest) ← Json.readKey Json.readString bs
    match OptionKey.ofName? name with
    | some key =>
      if key ∈ seen then throw .mismatched
      let (o, rest) ← readOption bound key o (← Json.readColon rest)
      return ((key :: seen, o), rest)
    | none =>
      let (_, rest) ← Json.skipValue bound bound (← Json.readColon rest)
      return ((seen, o), rest)

/-- Options from the inside of an object. -/
def readKeyed (bound : Nat) : Reader Options := fun bs => do
  let ((_, o), rest) ← Json.foldSequence bound Byte.closeBrace (readMember bound) ([], default) bs
  return (o, rest)

/-- The rest of a list of options: those whose turn has not come, and the options so far. After the
last the list has to close. -/
def readRest (bound : Nat) : List OptionKey → (first : Bool) → Options → Reader Options
  | [], _, o, bs =>
    match Json.skipBlanks bs with
    | [] => .error .unfinished
    | b :: rest => if b = Byte.closeBracket then .ok (o, rest) else .error .malformed
  | key :: keys, first, o, bs => do
    match ← Json.nextItem Byte.closeBracket first bs with
    | none => return (o, (Json.skipBlanks bs).tail)
    | some item =>
      let (o, rest) ← readOption bound key o item
      readRest bound keys false o rest

/-- Options from the inside of a list. -/
def readListed (bound : Nat) : Reader Options := readRest bound OptionKey.all true default

/-- Options from where they start. -/
def read (bound : Nat) : Reader Options := fun bs =>
  match Json.skipBlanks bs with
  | Byte.openBrace :: rest => readKeyed bound rest
  | Byte.openBracket :: rest => readListed bound rest
  | _ => mismatch bs

/-- The options that a whole text gives. -/
def ofText (text : Bytes) : Except Fault Options := do
  let (o, rest) ← read (text.length + 1) text
  Json.expectEnd rest
  return o

/-- All four options as an object, its keys in order. -/
def toJson (o : Options) : Json := .obj [
  ("children_fields", .arr (o.childrenFields.map .str)),
  ("max_depth", .nat o.maxDepth),
  ("pointer_width", .nat o.pointerWidth),
  ("recover_malformed", .bool o.recoverMalformed)]

end Options

end AstDump
