import AstDump.Decode.Text
import AstDump.Options.Reader
import AstDump.Summary.OfUnit

/-!
# Where dumps and options come from

A dump is given as a text with a label, or by the name of a file. What a file holds is handed in, so
that nothing here depends on the outside.

* `Failure`                        : what went wrong, and why;
* `Source.load`                    : the value of a dump;
* `Source.decode`, `Source.summary`: its unit and its summary;
* `Options.ofConfigText`, `Options.ofConfigFile` : options from a text or a file.
-/

namespace AstDump

/-- What is wrong with a file. -/
inductive FileFault where
  | notFound
  | notText
  deriving DecidableEq, Repr, Inhabited

/-- Why something went wrong. -/
inductive Cause where
  | file (fault : FileFault)
  | json (fault : Json.Fault)
  | dump (error : DecodeError)
  deriving DecidableEq, Repr, Inhabited

/-- What went wrong. -/
inductive Failure where
  | parseOptions (fault : Json.Fault)
  | openOptions (file : String) (fault : FileFault)
  | parseOptionsFile (file : String) (fault : Json.Fault)
  | openDump (file : String) (fault : FileFault)
  | parseDump (label : String) (error : DecodeError)
  | decodeDump (label : String) (error : DecodeError)
  deriving DecidableEq, Repr, Inhabited

namespace Failure

/-- The wording of a failure, without its cause. -/
def message : Failure → String
  | parseOptions _ => "Failed to parse decode config"
  | openOptions file _ => s!"Failed to open config {file}"
  | parseOptionsFile file _ => s!"Failed to parse config {file}"
  | openDump file _ => s!"Failed to open dump {file}"
  | parseDump label _ => s!"Failed to parse dump {label}"
  | decodeDump label _ => s!"Failed to decode {label}"

/-- The cause of a failure. -/
def cause : Failure → Cause
  | parseOptions fault => .json fault
  | openOptions _ fault => .file fault
  | parseOptionsFile _ fault => .json fault
  | openDump _ fault => .file fault
  | parseDump _ error => .dump error
  | decodeDump _ error => .dump error

end Failure

/-- What a file holds; nothing, when there is no such file. -/
abbrev FileContent := Option Bytes

/-- A dump's origin. -/
inductive Origin where
  | text (label : String) (text : String)
  | file (name : String) (content : FileContent)
  deriving DecidableEq, Repr, Inhabited

/-- A dump's origin and the depth limit that its text is held to. -/
structure Source where
  origin : Origin
  maxDepth : Nat
  deriving DecidableEq, Repr, Inhabited

namespace Source

/-- A text as a source, with the depth limit that holds where none is chosen. -/
def ofText (label text : String) : Source := ⟨.text label text, Options.defaultMaxDepth⟩

/-- A file as a source, with the depth limit that holds where none is chosen. -/
def ofFile (name : String) (content : FileContent) : Source :=
  ⟨.file name content, Options.defaultMaxDepth⟩

/-- The source with another depth limit. -/
def withMaxDepth (maxDepth : Nat) (s : Source) : Source := { s with maxDepth }

/-- How the source is called in messages. -/
def label (s : Source) : String :=
  match s.origin with
  | .text label _ => label
  | .file name _ => name

/-- The text of the source. -/
def text (s : Source) : Except Failure String :=
  match s.origin with
  | .text _ text => .ok text
  | .file name none => .error (.openDump name .notFound)
  | .file name (some bytes) =>
    match Json.decodeBytes? bytes with
    | some text => .ok text
    | none => .error (.openDump name .notText)

/-- The value of the dump. -/
def load (s : Source) : Except Failure Json := do
  let text ← s.text
  (AstDump.parseDump s.maxDepth (bytesOf text)).mapError (.parseDump s.label)

/-- The unit of the dump. -/
def decode (options : Options) (s : Source) : Except Failure TranslationUnit := do
  (AstDump.decode options (← s.load)).mapError (.decodeDump s.label)

/-- The summary of the dump. -/
def summary (options : Options) (s : Source) : Except Failure UnitSummary :=
  (s.decode options).map TranslationUnit.summary

end Source

namespace Options

/-- Options from a text. -/
def ofConfigText (text : String) : Except Failure Options :=
  (ofText (bytesOf text)).mapError .parseOptions

/-- Options from a file, whose bytes need not be UTF-8 outside of the strings that are kept. -/
def ofConfigFile (name : String) : FileContent → Except Failure Options
  | none => .error (.openOptions name .notFound)
  | some bytes => (ofText bytes).mapError (.parseOptionsFile name)

end Options

end AstDump
