import AstDump.Text.Blank

/-!
# Type spellings without qualifiers

A summary names types without their qualifiers, one space between words.

* `TypeName.unqualified` : the spelling without qualifiers;
* `TypeName.isConst`     : one of the words is `const`;
* `TypeName.resultType`  : of the spelling of a function type, the type of its result.
-/

namespace AstDump

namespace TypeName

/-- The qualifiers of types. -/
def qualifiers : List String := ["const", "volatile", "__restrict", "restrict"]

/-- The word is a qualifier. -/
def isQualifier (word : List Char) : Bool := qualifiers.any fun q => q.toList == word

/-- A word of stars without the qualifier that is written right after them, if one is; any other
word as it is. -/
def dropPointerQualifier (word : List Char) : List Char :=
  match word with
  | '*' :: _ => (qualifiers.findSome? fun q => Text.before? q.toList word).getD word
  | _ => word

/-- The words of a spelling that are left when its qualifiers are gone. -/
def unqualifiedWords (cs : List Char) : List (List Char) :=
  ((Text.words cs).filter fun w => ¬ isQualifier w).map dropPointerQualifier

/-- The spelling without qualifiers, with one space between words. -/
def unqualified (spelling : String) : String :=
  " ".intercalate ((unqualifiedWords spelling.toList).map String.ofList)

/-- One of the words of the spelling is `const`. -/
def isConst (spelling : String) : Bool := (Text.words spelling.toList).contains "const".toList

/-- The result type in the spelling of a function type: all before the first parenthesis, without
blanks at its end. A spelling without a parenthesis is taken whole. -/
def resultType (signature : String) : String :=
  if signature.toList.contains '(' then
    String.ofList (Text.trimEnd (signature.toList.takeWhile (· ≠ '(')))
  else signature

end TypeName

end AstDump
