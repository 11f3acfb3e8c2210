/-!
# Blanks and words

Type spellings are cut at blanks: the characters with the Unicode property White_Space.

* `Text.isBlank` : the property;
* `Text.trim`    : without blanks at both ends;
* `Text.words`   : the longest runs of other characters;
* `Text.after?`  : what follows a given beginning.
-/

namespace AstDump

namespace Text

/-- The ranges of the property White_Space, both ends included. -/
def blankRanges : List (Nat × Nat) := [
  (0x0009, 0x000d), (0x0020, 0x0020), (0x0085, 0x0085), (0x00a0, 0x00a0), (0x1680, 0x1680),
  (0x2000, 0x200a), (0x2028, 0x2029), (0x202f, 0x202f), (0x205f, 0x205f), (0x3000, 0x3000)]

/-- A character with the property White_Space. -/
def isBlank (c : Char) : Bool := blankRanges.any fun r => r.1 ≤ c.toNat && c.toNat ≤ r.2

/-- Without the blanks in front. -/
def trimStart (cs : List Char) : List Char := cs.dropWhile isBlank

/-- Without the blanks at the end. -/
def trimEnd (cs : List Char) : List Char := (cs.reverse.dropWhile isBlank).reverse

/-- Without the blanks at both ends. -/
def trim (cs : List Char) : List Char := trimEnd (trimStart cs)

/-- The words of a text, the word that is being read given in reverse. -/
def wordsFrom (word : List Char) : List Char → List (List Char)
  | [] => if word.isEmpty then [] else [word.reverse]
  | c :: cs =>
    if isBlank c then
      if word.isEmpty then wordsFrom [] cs else word.reverse :: wordsFrom [] cs
    else wordsFrom (c :: word) cs

/-- The words of a text: its longest runs of characters that are not blanks. -/
def words (cs : List Char) : List (List Char) := wordsFrom [] cs

/-- What follows `front` in a text that begins with it. -/
def after? : (front : List Char) → List Char → Option (List Char)
  | [], cs => some cs
  | _ :: _, [] => none
  | f :: fs, c :: cs => if c = f then after? fs cs else none

/-- What precedes `back` in a text that ends with it. -/
def before? (back cs : List Char) : Option (List Char) :=
  (after? back.reverse cs.reverse).map List.reverse

end Text

end AstDump
