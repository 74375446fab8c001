import ClassAtlas.Text.Basic
import ClassAtlas.Text.Word
import ClassAtlas.Nesting.Delimiter
import ClassAtlas.Nesting.State
import ClassAtlas.Nesting.Search
import ClassAtlas.Json.Basic
import ClassAtlas.Json.Printer
import ClassAtlas.Json.Reader
import ClassAtlas.Pattern.Basic
import ClassAtlas.Pattern.Name
import ClassAtlas.Vocabulary
import ClassAtlas.Source.Comment
import ClassAtlas.Source.Canonical
import ClassAtlas.Source.Scope
import ClassAtlas.Source.Chunk
import ClassAtlas.TypeTree.Basic
import ClassAtlas.TypeTree.Nominal
import ClassAtlas.TypeTree.Parse
import ClassAtlas.Outline.Basic
import ClassAtlas.Outline.Parameter
import ClassAtlas.Outline.Header
import ClassAtlas.Outline.Member
import ClassAtlas.Outline.Usage
import ClassAtlas.Outline.OfLines
import ClassAtlas.FileOutline
import ClassAtlas.ClassId
import ClassAtlas.Registry
import ClassAtlas.Resolution
import ClassAtlas.Path
import ClassAtlas.Interner
import ClassAtlas.ClassEntry
import ClassAtlas.Graph.Basic
import ClassAtlas.Graph.Reach
import ClassAtlas.Graph.Cycle
import ClassAtlas.Grouping
import ClassAtlas.Report.Basic
import ClassAtlas.Report.Full
import ClassAtlas.Report.Compact
import ClassAtlas.Report.Markdown
import ClassAtlas.Report.Style
import ClassAtlas.Analysis
import ClassAtlas.Settings
import ClassAtlas.Text.Utf8
import ClassAtlas.Reader
import ClassAtlas.Workspace.Tree
import ClassAtlas.Workspace.Basic
import ClassAtlas.Workspace.Discovery
import ClassAtlas.CommandLine.Options
import ClassAtlas.CommandLine.Run
import ClassAtlas.Main
import ClassAtlas.Proofs.Registry
import ClassAtlas.Proofs.Resolution
import ClassAtlas.Proofs.Pattern
import ClassAtlas.Proofs.Text
import ClassAtlas.Proofs.Word
import ClassAtlas.Proofs.Chunk
import ClassAtlas.Proofs.ChunkSpans
import ClassAtlas.Proofs.DeclarationLine
import ClassAtlas.Proofs.Closure
import ClassAtlas.Proofs.Nesting
import ClassAtlas.Proofs.Canonical
import ClassAtlas.Proofs.Name
import ClassAtlas.Proofs.Member
import ClassAtlas.Proofs.Usage
import ClassAtlas.Proofs.TypeTree.Expression
import ClassAtlas.Proofs.TypeTree.Scan
import ClassAtlas.Proofs.TypeTree.RoundTrip
import ClassAtlas.Proofs.Written.Syntax
import ClassAtlas.Proofs.Written.Texts
import ClassAtlas.Proofs.Written.TypeRef
import ClassAtlas.Proofs.Written.Parameter
import ClassAtlas.Proofs.Written.Member
import ClassAtlas.Proofs.Written.Header
import ClassAtlas.Proofs.Written.Scope
import ClassAtlas.Proofs.Written.Line
import ClassAtlas.Proofs.Written.RoundTrip
import ClassAtlas.Proofs.Grouping
import ClassAtlas.Proofs.Sorting
import ClassAtlas.Proofs.StableSort
import ClassAtlas.Proofs.ByteOrder
import ClassAtlas.Proofs.Interner
import ClassAtlas.Proofs.Graph.Construction
import ClassAtlas.Proofs.Graph.Cycle
import ClassAtlas.Proofs.Graph.Mutual
import ClassAtlas.Proofs.Graph.Successors
import ClassAtlas.Proofs.Passes
import ClassAtlas.Proofs.Graph.Reach
import ClassAtlas.Proofs.History
import ClassAtlas.Proofs.OrderIndependence
import ClassAtlas.Proofs.Lines
import ClassAtlas.Proofs.CanonicalForm
import ClassAtlas.Proofs.Isolation
import ClassAtlas.Proofs.LineEnds
import ClassAtlas.Proofs.Json.RoundTrip
import ClassAtlas.Proofs.Report.Full
import ClassAtlas.Proofs.Report.Compact
import ClassAtlas.Proofs.Report.Sections
import ClassAtlas.Proofs.Report.Internal
import ClassAtlas.Proofs.SelfReference
import ClassAtlas.Proofs.Dependencies
import ClassAtlas.Proofs.Path
import ClassAtlas.Proofs.Workspace.Tree
import ClassAtlas.Proofs.Workspace.Walk
import ClassAtlas.Proofs.Workspace.Projects
import ClassAtlas.Proofs.TypeTree.Ranks
import ClassAtlas.Proofs.TypeTree.Size
import ClassAtlas.Proofs.LineCode
import ClassAtlas.Proofs.Literal.Scan
import ClassAtlas.Proofs.Literal.Line
import ClassAtlas.Proofs.Literal.Comment
import ClassAtlas.Proofs.Idempotence
import ClassAtlas.Proofs.WellNested
import ClassAtlas.Proofs.Split
import ClassAtlas.Proofs.Verbatim.Scan
import ClassAtlas.Proofs.Verbatim.Line
import ClassAtlas.Proofs.Signature.Parameter
import ClassAtlas.Proofs.Signature.ParameterList
import ClassAtlas.Proofs.Signature.Base
import ClassAtlas.Proofs.Signature.BaseList
import ClassAtlas.Proofs.Signature.PlainList
import ClassAtlas.Proofs.Signature.Header
import ClassAtlas.Proofs.Signature.Constructor
import ClassAtlas.Proofs.Signature.Declaration
import ClassAtlas.Proofs.Signature.BoundedType
import ClassAtlas.Proofs.Signature.MemberLine
import ClassAtlas.Proofs.Signature.MethodLine
import ClassAtlas.Proofs.ScanState
import ClassAtlas.Proofs.TypeTree.NominalName
import ClassAtlas.Proofs.Offset
import ClassAtlas.Proofs.Sliced
import ClassAtlas.Proofs.Workspace.Order
import ClassAtlas.Proofs.Workspace.Write
import ClassAtlas.Proofs.CommandLine.Arguments
import ClassAtlas.Proofs.CommandLine.Run
