import AstDump.Text.Invisible

/-!
# Quoted text for people

A text between quotes, on one line and with nothing invisible in it.

* `Text.quote` : the quoted text.
-/

namespace AstDump

namespace Text

/-- A character between quotes: the quote and the backslash after a backslash, the usual controls by
their letters, other characters that cannot be seen by their number. -/
def quoteChar (c : Char) : List Char :=
  if c = '"' then ['\\', '"']
  else if c = '\\' then ['\\', '\\']
  else if c = '\n' then ['\\', 'n']
  else if c = '\r' then ['\\', 'r']
  else if c = '\t' then ['\\', 't']
  else if c.toNat = 0 then ['\\', '0']
  else if isInvisible c then ['\\', 'u', '\x7b'] ++ Nat.toDigits 16 c.toNat ++ ['\x7d']
  else [c]

/-- A text between quotes. -/
def quote (s : String) : String := String.ofList ('"' :: (s.toList.flatMap quoteChar ++ ['"']))

end Text

end AstDump
