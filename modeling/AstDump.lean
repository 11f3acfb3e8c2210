import AstDump.Decode.Encode
import AstDump.Decode.Error
import AstDump.Decode.Mask
import AstDump.Decode.Record
import AstDump.Decode.RecordTree
import AstDump.Decode.Text
import AstDump.Decode.Walk
import AstDump.Json.Basic
import AstDump.Json.DecidableEq
import AstDump.Json.Nesting
import AstDump.Json.Printer
import AstDump.Json.Reader
import AstDump.Json.Record
import AstDump.Json.Scalar
import AstDump.Kind
import AstDump.Location
import AstDump.Node
import AstDump.Number.Binary64
import AstDump.Number.Shortest
import AstDump.Options.Basic
import AstDump.Options.Reader
import AstDump.Proofs.Ancestors
import AstDump.Proofs.Declarations
import AstDump.Proofs.DepthLimit
import AstDump.Proofs.Doubles
import AstDump.Proofs.Encoding
import AstDump.Proofs.Errors
import AstDump.Proofs.Extraction
import AstDump.Proofs.Filters
import AstDump.Proofs.Forest
import AstDump.Proofs.Growth
import AstDump.Proofs.IdIndex
import AstDump.Proofs.InitialValue
import AstDump.Proofs.LeadingQualifiers
import AstDump.Proofs.Listing
import AstDump.Proofs.Locality
import AstDump.Proofs.Locations
import AstDump.Proofs.Lookup
import AstDump.Proofs.Loops
import AstDump.Proofs.Marks
import AstDump.Proofs.Masking
import AstDump.Proofs.OptionOverlay
import AstDump.Proofs.Origin
import AstDump.Proofs.Outline
import AstDump.Proofs.Parameters
import AstDump.Proofs.Places
import AstDump.Proofs.PointerWidth
import AstDump.Proofs.Preorder
import AstDump.Proofs.Pruning
import AstDump.Proofs.Qualifiers
import AstDump.Proofs.ReaderLevels
import AstDump.Proofs.ReaderNesting
import AstDump.Proofs.Records
import AstDump.Proofs.Recovery
import AstDump.Proofs.Recursion
import AstDump.Proofs.Registry
import AstDump.Proofs.Reports
import AstDump.Proofs.Rollback
import AstDump.Proofs.RoundTrip
import AstDump.Proofs.Scan
import AstDump.Proofs.Search
import AstDump.Proofs.SearchOrder
import AstDump.Proofs.SideData
import AstDump.Proofs.Skipping
import AstDump.Proofs.Spelling
import AstDump.Proofs.Steps
import AstDump.Proofs.StrictDecoding
import AstDump.Proofs.Summaries
import AstDump.Proofs.Survivors
import AstDump.Proofs.TextDecoding
import AstDump.Proofs.Units
import AstDump.Proofs.ViewContents
import AstDump.Proofs.ViewLists
import AstDump.Proofs.Views
import AstDump.Proofs.Walk
import AstDump.Proofs.Words
import AstDump.Registry
import AstDump.Session
import AstDump.Source
import AstDump.Summary.Basic
import AstDump.Summary.OfUnit
import AstDump.Text.Blank
import AstDump.Text.Invisible
import AstDump.Text.Quoted
import AstDump.Tree.Basic
import AstDump.Tree.BuildView
import AstDump.Tree.Filter
import AstDump.Tree.Search
import AstDump.Tree.Subtree
import AstDump.Tree.Variable
import AstDump.Type.Unqualified
import AstDump.Type.Width
import AstDump.Unit.Basic
import AstDump.Unit.Lookup
import AstDump.Unit.Views
import AstDump.View
