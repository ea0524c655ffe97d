import BinaryNames.Archive
import BinaryNames.Cancellation
import BinaryNames.Command
import BinaryNames.Declaration.Naming
import BinaryNames.Declaration.Search
import BinaryNames.Declaration.Tree
import BinaryNames.Error
import BinaryNames.Java.Declarations
import BinaryNames.Java.Head
import BinaryNames.Java.Outline
import BinaryNames.Java.ParseTree
import BinaryNames.Java.Token
import BinaryNames.Main
import BinaryNames.Package
import BinaryNames.Path
import BinaryNames.Proofs.Tree.Chain
import BinaryNames.Proofs.Tree.Push
import BinaryNames.Query
import BinaryNames.Report
import BinaryNames.Snapshot
import BinaryNames.Source.Lines
import BinaryNames.Source.Span
import BinaryNames.Text.Character
import BinaryNames.Text.Json
import BinaryNames.Text.Pattern
import BinaryNames.Text.Reader
import BinaryNames.Text.Split
import BinaryNames.Text.Utf8
import BinaryNames.Toml.Document
import BinaryNames.Toml.Scalar
import BinaryNames.Toml.Text
import BinaryNames.Toml.Value
import BinaryNames.TypeName
import BinaryNames.TypeSearch
import BinaryNames.Uri.File
import BinaryNames.Uri.Host
import BinaryNames.Uri.Percent
import BinaryNames.Workspace.Basic
import BinaryNames.Workspace.Config
import BinaryNames.Proofs.Java.Growth
import BinaryNames.Proofs.Naming.Place
import BinaryNames.Proofs.Naming.Segments
import BinaryNames.Proofs.Naming.Uniqueness
import BinaryNames.Proofs.Java.Nesting
import BinaryNames.Proofs.Source.Lines
import BinaryNames.Proofs.LineAgreement
import BinaryNames.Proofs.Java.Tokens
import BinaryNames.Proofs.Java.Outline
import BinaryNames.Proofs.Java.ParseTree
import BinaryNames.Proofs.Path.Components
import BinaryNames.Proofs.Uri.File
import BinaryNames.Proofs.NamePattern
import BinaryNames.Proofs.Naming.TopLevel
import BinaryNames.Proofs.SourceRoots
import BinaryNames.Proofs.TypeSearch
import BinaryNames.Proofs.RoundTrip
import BinaryNames.Proofs.Java.Syntax
import BinaryNames.Proofs.Java.Correspondence
import BinaryNames.Proofs.Java.SourceOrder
import BinaryNames.Proofs.Naming.AnonymousRank
import BinaryNames.Proofs.Java.Words
import BinaryNames.Proofs.Naming.Characters
import BinaryNames.Proofs.Snapshot
import BinaryNames.Proofs.Ownership
import BinaryNames.Proofs.ProjectOrder
import BinaryNames.Proofs.UnreadableLibraries
import BinaryNames.Proofs.Locations
import BinaryNames.Proofs.Java.Membership
import BinaryNames.Proofs.Tree.Bisection
import BinaryNames.Proofs.Naming.LocalMembers
import BinaryNames.Proofs.Failures
import BinaryNames.Proofs.Naming.Stability
import BinaryNames.Proofs.Naming.SuggestedPackage
import BinaryNames.Proofs.Source.Partition
import BinaryNames.Proofs.FullScan
import BinaryNames.Proofs.Path.NormalForm
import BinaryNames.Proofs.ConfiguredPaths
import BinaryNames.Proofs.DeepestRoot
import BinaryNames.Proofs.PackagePaths
import BinaryNames.Proofs.OuterClass
import BinaryNames.Proofs.Uri.Located
