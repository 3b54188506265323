import IndentedSass.Cache.Bounded
import IndentedSass.Cache.Recent
import IndentedSass.Compiler
import IndentedSass.Css
import IndentedSass.Decimal.Binary
import IndentedSass.Decimal.Integer
import IndentedSass.Decimal.Reader
import IndentedSass.Decimal.Shortest
import IndentedSass.Disk
import IndentedSass.Expand
import IndentedSass.Expand.Selector
import IndentedSass.Expand.Span
import IndentedSass.Fault
import IndentedSass.Json
import IndentedSass.Json.Reader
import IndentedSass.Library
import IndentedSass.Line
import IndentedSass.Live.Connection
import IndentedSass.Live.Event
import IndentedSass.Live.Follow
import IndentedSass.Live.Hub
import IndentedSass.Machine
import IndentedSass.Main
import IndentedSass.Options
import IndentedSass.Options.Document
import IndentedSass.Options.File
import IndentedSass.Path
import IndentedSass.Scope
import IndentedSass.Scope.Forest
import IndentedSass.Script.Colour
import IndentedSass.Script.Eval
import IndentedSass.Script.Function
import IndentedSass.Script.Number
import IndentedSass.Script.Operator
import IndentedSass.Script.Palette
import IndentedSass.Script.Postfix
import IndentedSass.Script.Split
import IndentedSass.Script.Token
import IndentedSass.Script.Value
import IndentedSass.Service.Http
import IndentedSass.Service.Setup
import IndentedSass.Service.Sheet
import IndentedSass.Service.Sheets
import IndentedSass.Service.Store
import IndentedSass.Settings
import IndentedSass.Settings.ByteSize
import IndentedSass.Settings.Duration
import IndentedSass.Source.Builder
import IndentedSass.Statement
import IndentedSass.Statement.Header
import IndentedSass.Style
import IndentedSass.Style.Compact
import IndentedSass.Style.Compressed
import IndentedSass.Style.Expanded
import IndentedSass.Style.Layout
import IndentedSass.Style.Nested
import IndentedSass.Text
import IndentedSass.Text.Ascii
import IndentedSass.Text.Printable
import IndentedSass.Text.Quoted
import IndentedSass.Text.Utf8
import IndentedSass.Tool.Build
import IndentedSass.Tool.Bundle
import IndentedSass.Tool.Command
import IndentedSass.Tool.Diff
import IndentedSass.Tool.Flag
import IndentedSass.Tool.Publish
import IndentedSass.Tool.Storage
import IndentedSass.Watch
import IndentedSass.Watch.Debounce
import IndentedSass.Yaml
import IndentedSass.Yaml.Reader
import IndentedSass.Yaml.Scalar
import IndentedSass.Proofs.Expression
import IndentedSass.Proofs.Outcome
import IndentedSass.Proofs.SourceTree
import IndentedSass.Proofs.Lockstep
import IndentedSass.Proofs.StyleAgreement
import IndentedSass.Proofs.TreeCache
import IndentedSass.Proofs.Pieces
import IndentedSass.Proofs.Resolution
import IndentedSass.Proofs.Dependencies
import IndentedSass.Proofs.Course
import IndentedSass.Proofs.ScopeDiscipline
import IndentedSass.Proofs.BareFaults
import IndentedSass.Proofs.Documents
import IndentedSass.Proofs.Visits
import IndentedSass.Proofs.LocatedFaults
import IndentedSass.Proofs.Conversation
import IndentedSass.Proofs.Anew
import IndentedSass.Proofs.Calls
import IndentedSass.Proofs.Drafts
import IndentedSass.Proofs.Interleaving
import IndentedSass.Proofs.Freshness
import IndentedSass.Proofs.RememberedTargets
import IndentedSass.Proofs.Fuel
import IndentedSass.Proofs.ImportStack
import IndentedSass.Proofs.Exposure
import IndentedSass.Proofs.OpenDeclarations
import IndentedSass.Proofs.Enclosure
import IndentedSass.Proofs.ReadBack
import IndentedSass.Proofs.FailedCompilations
import IndentedSass.Proofs.Delivery
import IndentedSass.Proofs.Sources
import IndentedSass.Proofs.OutputPlaces
import IndentedSass.Proofs.Undisturbed
import IndentedSass.Proofs.Builds
import IndentedSass.Proofs.BuildOrder
import IndentedSass.Proofs.Parentheses
import IndentedSass.Proofs.Lexing
import IndentedSass.Proofs.Ending
import IndentedSass.Proofs.FrameTree
import IndentedSass.Proofs.WhiteSpace
import IndentedSass.Proofs.LineLevels
import IndentedSass.Proofs.Nesting
import IndentedSass.Proofs.VariableNames
import IndentedSass.Proofs.QuotedStrings
import IndentedSass.Proofs.ParentReferences
import IndentedSass.Proofs.Doubles
import IndentedSass.Proofs.CountingLoops
import IndentedSass.Proofs.Juxtaposition
import IndentedSass.Proofs.Splicing
import IndentedSass.Proofs.UrlText
import IndentedSass.Proofs.WellFormedTrees
import IndentedSass.Proofs.MixinArguments
import IndentedSass.Proofs.PathSteps
import IndentedSass.Proofs.RequestPaths
import IndentedSass.Proofs.ChangeBatches
import IndentedSass.Proofs.SearchOrder
import IndentedSass.Proofs.ColourTexts
import IndentedSass.Proofs.BlankLines
import IndentedSass.Proofs.TrailingSpace
import IndentedSass.Proofs.CommentEnds
import IndentedSass.Proofs.Displacement
import IndentedSass.Proofs.TopLevelLists
