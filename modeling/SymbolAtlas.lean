import SymbolAtlas.Ascending
import SymbolAtlas.BuildLog.Entry
import SymbolAtlas.BuildLog.Import
import SymbolAtlas.BuildLog.Load
import SymbolAtlas.Cluster.Ambiguity
import SymbolAtlas.Cluster.Assignment
import SymbolAtlas.Cluster.JobPool
import SymbolAtlas.Cluster.Leaves
import SymbolAtlas.Command.Options
import SymbolAtlas.Command.Words
import SymbolAtlas.CommandLine.Arguments
import SymbolAtlas.CommandLine.Places
import SymbolAtlas.CommandLine.Session
import SymbolAtlas.Discovery
import SymbolAtlas.Dispatch.Bench
import SymbolAtlas.Dispatch.Collector
import SymbolAtlas.Dispatch.Indexer
import SymbolAtlas.Dispatch.Parser
import SymbolAtlas.Dispatch.Pass
import SymbolAtlas.Dispatch.Tally
import SymbolAtlas.FileTree.Basic
import SymbolAtlas.FileTree.Walk
import SymbolAtlas.Hash.Xxh3
import SymbolAtlas.Json.Basic
import SymbolAtlas.Json.Fields
import SymbolAtlas.Json.Reader
import SymbolAtlas.Json.Record
import SymbolAtlas.Json.Writer
import SymbolAtlas.Language
import SymbolAtlas.Main
import SymbolAtlas.Model.Action
import SymbolAtlas.Model.Encoding
import SymbolAtlas.Model.File
import SymbolAtlas.Model.Outcome
import SymbolAtlas.Model.Statistic
import SymbolAtlas.Model.Symbol
import SymbolAtlas.Model.Word
import SymbolAtlas.Outcome.Handle
import SymbolAtlas.Path
import SymbolAtlas.Proofs.Ascending
import SymbolAtlas.Proofs.Cluster.Headers
import SymbolAtlas.Proofs.Cluster.Jobs
import SymbolAtlas.Proofs.Cluster.Leaves
import SymbolAtlas.Proofs.Propagation.BreadthFirst
import SymbolAtlas.Proofs.Propagation.Layers
import SymbolAtlas.Propagation
import SymbolAtlas.Report
import SymbolAtlas.Run
import SymbolAtlas.Settings
import SymbolAtlas.Source.Declarator
import SymbolAtlas.Source.Expression
import SymbolAtlas.Source.Extraction
import SymbolAtlas.Source.Item
import SymbolAtlas.Source.Lexer
import SymbolAtlas.Source.Lookup
import SymbolAtlas.Source.Reader
import SymbolAtlas.Source.Shape
import SymbolAtlas.Source.Specifier
import SymbolAtlas.Source.Token
import SymbolAtlas.Store.Actions
import SymbolAtlas.Store.Basic
import SymbolAtlas.Store.Call
import SymbolAtlas.Store.Clusters
import SymbolAtlas.Store.Database
import SymbolAtlas.Store.Document
import SymbolAtlas.Store.Files
import SymbolAtlas.Store.Statistics
import SymbolAtlas.Store.Symbols
import SymbolAtlas.Text.Blank
import SymbolAtlas.Text.Cut
import SymbolAtlas.Text.LetterCase
import SymbolAtlas.Text.Like
import SymbolAtlas.Text.Utf8
import SymbolAtlas.Toml.Quoted
import SymbolAtlas.Toml.Reader
import SymbolAtlas.Toml.Scalar
import SymbolAtlas.Toml.Table
import SymbolAtlas.Proofs.Cluster.Order
import SymbolAtlas.Proofs.Dispatch.Tally
import SymbolAtlas.Proofs.Outcome.Handle
import SymbolAtlas.Proofs.Dispatch.Units
import SymbolAtlas.Proofs.Store.Database
import SymbolAtlas.Proofs.Dispatch.Accounting
import SymbolAtlas.Proofs.Dispatch.Calls
import SymbolAtlas.Proofs.Dispatch.Step
import SymbolAtlas.Proofs.Dispatch.Stopping
import SymbolAtlas.Proofs.Dispatch.Once
import SymbolAtlas.Proofs.Dispatch.Indexing
import SymbolAtlas.Proofs.Dispatch.Plan
import SymbolAtlas.Proofs.Dispatch.Pass
import SymbolAtlas.Proofs.Store.Scopes
import SymbolAtlas.Proofs.Outcome.Polling
import SymbolAtlas.Proofs.Text.ByteOrder
import SymbolAtlas.Proofs.FileTree.Descent
import SymbolAtlas.Proofs.FileTree.Ordered
import SymbolAtlas.Proofs.FileTree.Walk
import SymbolAtlas.Proofs.FileTree.PathBound
import SymbolAtlas.Proofs.Dispatch.IndexTables
import SymbolAtlas.Proofs.Dispatch.IncludeClosure
import SymbolAtlas.Proofs.Store.Consistent
import SymbolAtlas.Proofs.Store.History
import SymbolAtlas.Proofs.BuildLog.Steps
import SymbolAtlas.Proofs.BuildLog.Import
import SymbolAtlas.Proofs.Dispatch.Background
import SymbolAtlas.Proofs.Dispatch.Interleaved
import SymbolAtlas.Proofs.Cluster.Workers
import SymbolAtlas.Proofs.Run.Stages
import SymbolAtlas.Proofs.Run.Histories
import SymbolAtlas.Proofs.Run.Repeated
import SymbolAtlas.Proofs.Path.Components
import SymbolAtlas.Proofs.Path.Lexical
import SymbolAtlas.Proofs.Cluster.Ambiguity
import SymbolAtlas.Proofs.Cluster.Table
import SymbolAtlas.Proofs.Text.Words
import SymbolAtlas.Proofs.Command.IncludePaths
import SymbolAtlas.Proofs.Command.Quoting
import SymbolAtlas.Proofs.Propagation.Paths
import SymbolAtlas.Proofs.Source.Visit
import SymbolAtlas.Proofs.BuildLog.Acceptance
import SymbolAtlas.Proofs.Source.Declarators
import SymbolAtlas.Proofs.FileTree.Counts
import SymbolAtlas.Proofs.FileTree.Listing
import SymbolAtlas.Proofs.Store.Statistics
import SymbolAtlas.Proofs.Discovery
import SymbolAtlas.Proofs.Store.Wildcards
import SymbolAtlas.Proofs.Run.Counters
import SymbolAtlas.Proofs.Json.Compact
import SymbolAtlas.Proofs.Model.Encoding
import SymbolAtlas.Proofs.Dispatch.Joint
import SymbolAtlas.Proofs.Dispatch.Abreast
import SymbolAtlas.Proofs.Dispatch.WholeCommand
import SymbolAtlas.Proofs.BuildLog.Resolution
import SymbolAtlas.Proofs.Cluster.Barrier
