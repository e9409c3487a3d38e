import KindLift.CommandLine
import KindLift.CommandLine.Arguments
import KindLift.Decl
import KindLift.Decl.Cursor
import KindLift.Decl.Header
import KindLift.Decl.Object
import KindLift.Decl.Outline
import KindLift.Decl.Reference
import KindLift.Decl.Trait
import KindLift.Diff.Line
import KindLift.Diff.Script
import KindLift.Diff.Tidy
import KindLift.Diff.Unified
import KindLift.Digest
import KindLift.DottedName
import KindLift.Edit
import KindLift.FileTree
import KindLift.FileTree.Discovery
import KindLift.FileTree.Glob
import KindLift.FileTree.Ignore
import KindLift.Main
import KindLift.Path
import KindLift.Program.Graph
import KindLift.Program.Order
import KindLift.Proofs.CursorPlacement
import KindLift.Proofs.DeclPlacement
import KindLift.Proofs.EditApplication
import KindLift.Proofs.InstancePlacement
import KindLift.Proofs.ParserLogic
import KindLift.Proofs.ProcessingOrder
import KindLift.Proofs.ReferencePlacement
import KindLift.Proofs.RuleLogic
import KindLift.Proofs.RuleSafety
import KindLift.Proofs.RunAtomicity
import KindLift.Proofs.RunSession
import KindLift.Proofs.ServiceMatching
import KindLift.Proofs.SettledPasses
import KindLift.Proofs.TextBoundary
import KindLift.Proofs.TokenPlacement
import KindLift.Proofs.Traversal
import KindLift.Report
import KindLift.Report.Json
import KindLift.Rule
import KindLift.Rule.AdaptReferences
import KindLift.Rule.AddInstances
import KindLift.Rule.Registry
import KindLift.Run
import KindLift.Service.Conventions
import KindLift.Service.Match
import KindLift.Service.Phase
import KindLift.Service.Relocation
import KindLift.Service.Template
import KindLift.Settings
import KindLift.SortedSet
import KindLift.SourceUnit
import KindLift.Storage
import KindLift.Symbol
import KindLift.Symbol.Index
import KindLift.Table
import KindLift.Text.Alphabetic
import KindLift.Text.CharClass
import KindLift.Text.Line
import KindLift.Text.Numeric
import KindLift.Text.Offset
import KindLift.Text.Position
import KindLift.Text.Quoted
import KindLift.Text.Unprintable
import KindLift.Token
import KindLift.Token.ByteScanner
import KindLift.Token.Group
import KindLift.Token.Lexer
import KindLift.Token.Literal
import KindLift.Token.Trivia
import KindLift.Toml
import KindLift.Toml.Document
import KindLift.Toml.Scalar
import KindLift.Toml.Text
import KindLift.Proofs.IndexGrowth
import KindLift.Proofs.MigrationCompleteness
import KindLift.Proofs.IndexRefinement
import KindLift.Proofs.GraphSearch
import KindLift.Proofs.PackageCycles
import KindLift.Proofs.IndexMirror
import KindLift.Proofs.ImportChecks
import KindLift.Proofs.FileOrder
import KindLift.Proofs.EditSplicing
import KindLift.Proofs.LocalAliases
import KindLift.Proofs.CommandContract
import KindLift.Proofs.WrittenTokens
import KindLift.Proofs.WrittenReading
import KindLift.Proofs.WrittenGroups
import KindLift.Proofs.WrittenTraits
import KindLift.Proofs.WrittenObjects
import KindLift.Proofs.WrittenUnits
import KindLift.Proofs.WrittenTemplates
import KindLift.Proofs.WrittenInstances
import KindLift.Proofs.WrittenNesting
import KindLift.Proofs.WrittenServices
import KindLift.Proofs.WrittenPlans
import KindLift.Proofs.WrittenMatching
import KindLift.Proofs.WrittenImports
import KindLift.Proofs.WrittenMigration
import KindLift.Proofs.EditConflicts
import KindLift.Proofs.TraitSpans
import KindLift.Proofs.OutlineSpans
import KindLift.Proofs.WrittenOutcomes
import KindLift.Proofs.GeneratedUnits
import KindLift.Proofs.TokenCopies
import KindLift.Proofs.TokenEnds
import KindLift.Proofs.ScanRuns
import KindLift.Proofs.StretchParsers
import KindLift.Proofs.BodyLayouts
import KindLift.Proofs.ParameterNames
import KindLift.Proofs.TokenTiling
import KindLift.Proofs.BytePrograms
import KindLift.Proofs.ByteStrings
import KindLift.Proofs.ByteScanning
import KindLift.Proofs.RepeatedQualification
import KindLift.Proofs.RebuiltBodies
import KindLift.Proofs.RebuiltTexts
import KindLift.Proofs.CoveredSpans
import KindLift.Proofs.TraitReading
import KindLift.Proofs.NestedTraits
import KindLift.Proofs.IndentedTexts
import KindLift.Proofs.RelocatedTokens
import KindLift.Proofs.LineBreaks
import KindLift.Proofs.ResolutionOrder
import KindLift.Proofs.PrintedServices
import KindLift.Proofs.BracketBalance
import KindLift.Proofs.BalancedParsers
import KindLift.Proofs.BalancedSources
import KindLift.Proofs.TokenEdges
import KindLift.Proofs.TypeTokens
import KindLift.Proofs.LegibleTexts
import KindLift.Proofs.SignatureTexts
import KindLift.Proofs.SignatureReading
import KindLift.Proofs.DeclaredSignatures
import KindLift.Proofs.ImportVisibility
import KindLift.Proofs.ExactLookups
import KindLift.Proofs.Preambles
import KindLift.Proofs.ImportLines
import KindLift.Proofs.GroupEnds
import KindLift.Proofs.SourcePositions
import KindLift.Proofs.CommentMarks
import KindLift.Proofs.TokenFronts
import KindLift.Proofs.SeamLogic
import KindLift.Proofs.SeamParsers
import KindLift.Proofs.SeamBodies
import KindLift.Proofs.GrownObjects
import KindLift.Proofs.GrownDecls
import KindLift.Proofs.GrownOutlines
import KindLift.Proofs.ScannedPieces
import KindLift.Proofs.MendedPieces
import KindLift.Proofs.MendedOutlines
import KindLift.Proofs.OutlineGrowth
import KindLift.Proofs.PlannedWork
