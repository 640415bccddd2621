import Instrumentation.Analysis
import Instrumentation.Build
import Instrumentation.CallGraph
import Instrumentation.Closure
import Instrumentation.CommandLine.Arguments
import Instrumentation.CommandLine.Causes
import Instrumentation.CommandLine.Command
import Instrumentation.CommandLine.Run
import Instrumentation.CommandLine.World
import Instrumentation.Compiler.Messages
import Instrumentation.Compiler.Remapping
import Instrumentation.Config
import Instrumentation.EntryPoint
import Instrumentation.Failure
import Instrumentation.FileTree
import Instrumentation.FileTree.Edit
import Instrumentation.Injection
import Instrumentation.InstrumentedFile
import Instrumentation.InstrumentedProgram
import Instrumentation.Invocation.Chain
import Instrumentation.Invocation.Context
import Instrumentation.Invocation.Frame
import Instrumentation.Invocation.Guard
import Instrumentation.Invocation.Session
import Instrumentation.Invocation.Switch
import Instrumentation.Invocation.Value
import Instrumentation.Json.Basic
import Instrumentation.Json.Decode
import Instrumentation.Json.Printer
import Instrumentation.Json.Reader
import Instrumentation.Main
import Instrumentation.Manifest
import Instrumentation.Matches
import Instrumentation.Matching
import Instrumentation.ModuleFile
import Instrumentation.Optimization
import Instrumentation.Package.Basic
import Instrumentation.Package.Graph
import Instrumentation.Package.Metadata
import Instrumentation.Path
import Instrumentation.Proofs.Bodies
import Instrumentation.Proofs.CallGraph
import Instrumentation.Proofs.Closure
import Instrumentation.Proofs.Diagnostics
import Instrumentation.Proofs.Frame
import Instrumentation.Proofs.InsertOnly
import Instrumentation.Proofs.Layout
import Instrumentation.Proofs.Lexeme
import Instrumentation.Proofs.Offset
import Instrumentation.Proofs.Pruning
import Instrumentation.Proofs.Reading
import Instrumentation.Proofs.ScannedBodies
import Instrumentation.Proofs.UniformExit
import Instrumentation.Proofs.Weaving
import Instrumentation.Reachability
import Instrumentation.Registry
import Instrumentation.Rendering
import Instrumentation.Report.Context
import Instrumentation.Report.Failure
import Instrumentation.Report.File
import Instrumentation.Report.Package
import Instrumentation.Rule.Basic
import Instrumentation.Rule.Definition
import Instrumentation.Rule.Index
import Instrumentation.Rule.Report
import Instrumentation.Selection
import Instrumentation.Source.Grammar.Expression
import Instrumentation.Source.Grammar.File
import Instrumentation.Source.Grammar.Item
import Instrumentation.Source.Grammar.Path
import Instrumentation.Source.Grammar.Pattern
import Instrumentation.Source.Grammar.Statement
import Instrumentation.Source.Grammar.Type
import Instrumentation.Source.Lexer
import Instrumentation.Source.Literal
import Instrumentation.Source.Node
import Instrumentation.Source.Parser
import Instrumentation.Source.Scan
import Instrumentation.Source.Spelling
import Instrumentation.Source.TextLiteral
import Instrumentation.Source.Token
import Instrumentation.Splice.Calls
import Instrumentation.Splice.Text
import Instrumentation.Stage
import Instrumentation.Text.Blank
import Instrumentation.Text.Letter
import Instrumentation.Text.LineIndex
import Instrumentation.Text.Pieces
import Instrumentation.Text.PrintableTable
import Instrumentation.Text.Quoted
import Instrumentation.Text.SortedSet
import Instrumentation.Text.Word
import Instrumentation.Text.WordTable
import Instrumentation.Toml.Printer
import Instrumentation.Toml.Reader
import Instrumentation.Toml.Scalar
import Instrumentation.Toml.Table
import Instrumentation.Version.Basic
import Instrumentation.Version.Range
import Instrumentation.Version.Reader
import Instrumentation.Version.Requirement
import Instrumentation.WorkingCopy.Basic
import Instrumentation.WorkingCopy.Files
import Instrumentation.WorkingCopy.Relocation
import Instrumentation.Proofs.Visibility
import Instrumentation.Proofs.Completeness
import Instrumentation.Proofs.Alike
import Instrumentation.Proofs.Lexes
import Instrumentation.Proofs.Lookahead
import Instrumentation.Proofs.Parallel
import Instrumentation.Proofs.Steady
import Instrumentation.Proofs.CallTree
import Instrumentation.Proofs.CratesKnown
import Instrumentation.Proofs.Fusion
import Instrumentation.Proofs.Renaming
import Instrumentation.Proofs.SwitchedOff
import Instrumentation.Proofs.Threads
import Instrumentation.Proofs.Matching
import Instrumentation.Proofs.Mounts
import Instrumentation.Proofs.Optimization
import Instrumentation.Proofs.Selection
import Instrumentation.Proofs.FailedBuild
import Instrumentation.Proofs.NormalPaths
import Instrumentation.Proofs.Remapping
import Instrumentation.Proofs.VersionRanges
import Instrumentation.Proofs.ActiveStages
import Instrumentation.Proofs.Linkage
import Instrumentation.Proofs.Manifests
import Instrumentation.Proofs.Wiring
import Instrumentation.Proofs.Requirements
import Instrumentation.Proofs.WrittenRanges
import Instrumentation.Proofs.BuildLabels
import Instrumentation.Proofs.RawNames
import Instrumentation.Proofs.Injection
import Instrumentation.Proofs.SingleVersions
import Instrumentation.Proofs.FiniteWalks
import Instrumentation.Proofs.Relocations
import Instrumentation.Proofs.NormalForms
import Instrumentation.Proofs.Shapes
import Instrumentation.Proofs.Grouping
import Instrumentation.Proofs.Loading
import Instrumentation.Proofs.PathDependencies
import Instrumentation.Proofs.Blocks
import Instrumentation.Proofs.TextLineEnds
import Instrumentation.Proofs.WellScoped
import Instrumentation.Proofs.Searches
import Instrumentation.Proofs.FilesAdded
import Instrumentation.Proofs.RootFiles
import Instrumentation.Proofs.Replacements
import Instrumentation.Proofs.CopiedPackages
import Instrumentation.Proofs.LooseVersions
import Instrumentation.Proofs.DisabledRules
import Instrumentation.Proofs.RequirementOrder
import Instrumentation.Proofs.TypeKeys
import Instrumentation.Proofs.FusedRuns
import Instrumentation.Proofs.DropOrder
import Instrumentation.Proofs.LastNumbers
import Instrumentation.Proofs.Disjointness
import Instrumentation.Proofs.LineIndexes
