import ModelBinding.Files.Tree
import ModelBinding.Main
import ModelBinding.Proofs.Number.Decimal
import ModelBinding.Proofs.Number.Parts
import ModelBinding.Proofs.Json.Scanner
import ModelBinding.Proofs.Entries
import ModelBinding.Proofs.Files.Places
import ModelBinding.Proofs.Files.Runs
import ModelBinding.Proofs.Json.RoundTrip
import ModelBinding.Proofs.Document.Reading
import ModelBinding.Proofs.Document.Dumped
import ModelBinding.Proofs.Document.Recovery
import ModelBinding.Proofs.Context.Members
import ModelBinding.Proofs.Json.Finite
import ModelBinding.Proofs.Context.Scalars
import ModelBinding.Proofs.Context.Environment
import ModelBinding.Proofs.Context.RoundTrip
import ModelBinding.Proofs.Context.Built
import ModelBinding.Proofs.Context.Fields
import ModelBinding.Proofs.Field.Layout
import ModelBinding.Proofs.Context.Unreadable
import ModelBinding.Proofs.Context.Displayed
import ModelBinding.Proofs.Project.Build
import ModelBinding.Proofs.Project.Reload
import ModelBinding.Proofs.Graph.Elimination
import ModelBinding.Proofs.Graph.Components
import ModelBinding.Proofs.Graph.Paths
import ModelBinding.Proofs.Graph.Order
import ModelBinding.Proofs.Graph.Edges
import ModelBinding.Proofs.Types.Resolution
import ModelBinding.Proofs.Types.Dependency
import ModelBinding.Proofs.Types.Order
import ModelBinding.Proofs.Environment.Filling
import ModelBinding.Proofs.Environment.Roles
import ModelBinding.Proofs.Environment.Reset
import ModelBinding.Proofs.Environment.Phases
import ModelBinding.Proofs.Types.Reordering
import ModelBinding.Proofs.Environment.Reachable
import ModelBinding.Proofs.Project.Discovery
import ModelBinding.Proofs.Project.Rebuild
import ModelBinding.Proofs.Toml.Strings
import ModelBinding.Proofs.Toml.Keys
import ModelBinding.Proofs.Toml.Numbers
import ModelBinding.Proofs.Toml.Values
import ModelBinding.Proofs.Toml.Lines
import ModelBinding.Proofs.Toml.Tables
import ModelBinding.Proofs.Toml.RoundTrip
import ModelBinding.Proofs.Toml.Documents
import ModelBinding.Proofs.Environment.Written
import ModelBinding.Proofs.Graph.Least
import ModelBinding.Proofs.Project.Spelling
import ModelBinding.Proofs.Files.Making
import ModelBinding.Proofs.Files.Missing
import ModelBinding.Proofs.Project.Documents
import ModelBinding.Proofs.Project.Creation
import ModelBinding.Proofs.Environment.Parameters
import ModelBinding.Proofs.Files.Below
import ModelBinding.Proofs.Project.Sources
import ModelBinding.Proofs.Context.Translated
import ModelBinding.Proofs.Document.Paths
import ModelBinding.Proofs.Document.Concise
import ModelBinding.Proofs.Types.Indexing
import ModelBinding.Proofs.Types.Members
import ModelBinding.Proofs.Text
import ModelBinding.Proofs.Literal.Integers
import ModelBinding.Proofs.Literal.Numerals
import ModelBinding.Proofs.Literal.Sequences
import ModelBinding.Proofs.Environment.Spaces
import ModelBinding.Proofs.Environment.Admission
import ModelBinding.Proofs.Graph.Moments
import ModelBinding.Proofs.Model.Suffixes
import ModelBinding.Proofs.Graph.Cells
import ModelBinding.Proofs.Literal.Canonical
