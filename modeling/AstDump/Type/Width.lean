import AstDump.Text.Blank

/-!
# Widths of types

The width of a type is told from its spelling: a spelling with a star is a pointer, the spellings of
the integer types have fixed widths once their leading qualifiers are gone, and of all others
nothing is known.

* `TypeName.stripQualifiers` : without blanks at the ends and leading qualifiers;
* `Target.widthOf`           : the width of a type on a target with a given pointer width.
-/

namespace AstDump

/-- The width of a type. -/
inductive Width where
  | bytes (n : Nat)
  | unknown
  deriving DecidableEq, Repr, Inhabited

namespace Width

/-- The number of bytes, if it is known. -/
def bytes? : Width → Option Nat
  | bytes n => some n
  | unknown => none

/-- The width is known. -/
def isKnown (w : Width) : Bool := w.bytes?.isSome

/-- The width in words. -/
def text : Width → String
  | bytes n => s!"{n} bytes"
  | unknown => "unknown"

end Width

namespace TypeName

/-- A spelling with a star is a pointer. -/
def isPointer (spelling : String) : Bool := spelling.toList.contains '*'

/-- The qualifiers that may stand in front of the spelling of an integer type, each with the space
that ends it. -/
def leadingQualifiers : List (List Char) := ["const ".toList, "volatile ".toList]

/-- The spelling after one leading qualifier and the blanks after it. -/
def dropQualifier? (cs : List Char) : Option (List Char) :=
  (leadingQualifiers.findSome? fun q => Text.after? q cs).map Text.trimStart

/-- The spelling after at most `n` leading qualifiers. -/
def dropQualifiers : (n : Nat) → List Char → List Char
  | 0, cs => cs
  | n + 1, cs =>
    match dropQualifier? cs with
    | some rest => dropQualifiers n rest
    | none => cs

/-- The spelling without blanks at its ends and without leading qualifiers. A qualifier takes more
than one character, so no more can be dropped than there are characters. -/
def stripQualifiers (cs : List Char) : List Char :=
  let trimmed := Text.trim cs
  dropQualifiers trimmed.length trimmed

/-- The integer types by the number of their bytes. -/
def integerTypes : List (Nat × List String) := [
  (1, ["_Bool", "bool", "char", "signed char", "unsigned char", "int8_t", "uint8_t"]),
  (2, ["short", "short int", "signed short", "unsigned short", "unsigned short int", "int16_t",
    "uint16_t"]),
  (4, ["int", "signed", "signed int", "unsigned", "unsigned int", "int32_t", "uint32_t"]),
  (8, ["long", "long int", "signed long", "unsigned long", "unsigned long int", "long long",
    "long long int", "unsigned long long", "unsigned long long int", "int64_t", "uint64_t",
    "size_t", "ssize_t", "ptrdiff_t", "intptr_t", "uintptr_t"]),
  (16, ["__int128", "unsigned __int128", "__int128_t", "__uint128_t"])]

/-- The number of bytes of an integer type, spelled without qualifiers. -/
def integerWidth? (cs : List Char) : Option Nat :=
  (integerTypes.find? fun row => row.2.any fun name => name.toList == cs).map Prod.fst

end TypeName

/-- What the widths of types depend on. -/
structure Target where
  pointerWidth : Nat
  deriving DecidableEq, Repr, Inhabited

/-- Pointers of eight bytes, unless something else is said. -/
def Target.defaultPointerWidth : Nat := 8

/-- The width of the type with the given spelling. -/
def Target.widthOf (target : Target) (spelling : String) : Width :=
  if TypeName.isPointer spelling then .bytes target.pointerWidth
  else match TypeName.integerWidth? (TypeName.stripQualifiers spelling.toList) with
    | some n => .bytes n
    | none => .unknown

/-- A type counts as integral when its width is known. -/
def Target.isIntegral (target : Target) (spelling : String) : Bool :=
  (target.widthOf spelling).isKnown

end AstDump
