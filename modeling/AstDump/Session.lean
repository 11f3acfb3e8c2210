import AstDump.Decode.Walk

/-!
# Sessions

A session decodes dumps one after the other with the same options and holds the last unit. A dump
that fails leaves it without one.
-/

namespace AstDump

/-- Options, and the unit that was decoded last. -/
structure Session where
  options : Options
  current : Option TranslationUnit

namespace Session

/-- Nothing is decoded yet. -/
def start (options : Options) : Session := ⟨options, none⟩

/-- Decodes a dump. The unit before it is gone in any case. -/
def execute (s : Session) (raw : Json) : Except DecodeError TranslationUnit × Session :=
  match decode s.options raw with
  | .ok u => (.ok u, { s with current := some u })
  | .error e => (.error e, { s with current := none })

end Session

end AstDump
