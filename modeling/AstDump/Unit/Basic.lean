import AstDump.Decode.Error
import AstDump.Registry
import AstDump.Tree.Basic

/-!
# Translation units

What a dump is decoded to: its tree, the registry of its nodes, and the errors of the subtrees that
were dropped.
-/

namespace AstDump

/-- A decoded dump. -/
structure TranslationUnit where
  tree : Tree
  registry : Registry
  diagnostics : Array DecodeError

namespace TranslationUnit

/-- The first node with an id. -/
def find? (u : TranslationUnit) (rawId : String) : Option NodeId := u.tree.find? rawId

end TranslationUnit

end AstDump
