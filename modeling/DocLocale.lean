import DocLocale.Bisection
import DocLocale.Command.Report
import DocLocale.Command.Request
import DocLocale.Command.Run
import DocLocale.Config
import DocLocale.Decimal.Shortest
import DocLocale.Decl.Dump
import DocLocale.Decl.Kind
import DocLocale.Decl.Node
import DocLocale.Decl.Tree
import DocLocale.Decl.TypeExpr
import DocLocale.Disk
import DocLocale.Doc.Flags
import DocLocale.Doc.Record
import DocLocale.Glob
import DocLocale.Issue
import DocLocale.Json.Basic
import DocLocale.Json.Decode
import DocLocale.Json.Reader
import DocLocale.Json.Token
import DocLocale.Json.Writer
import DocLocale.Key.Map
import DocLocale.Key.Segment
import DocLocale.Main
import DocLocale.Path
import DocLocale.Project.Assembly
import DocLocale.Project.Discovery
import DocLocale.Project.Loading
import DocLocale.Project.Outline
import DocLocale.Render.Declaration
import DocLocale.Render.Layout
import DocLocale.Render.TypeText
import DocLocale.Source.Cursor
import DocLocale.Source.DocComment
import DocLocale.Source.File
import DocLocale.Source.Grammar.Classes
import DocLocale.Source.Grammar.Declarations
import DocLocale.Source.Grammar.Expressions
import DocLocale.Source.Grammar.Goal
import DocLocale.Source.Grammar.Literals
import DocLocale.Source.Grammar.Modules
import DocLocale.Source.Grammar.Signatures
import DocLocale.Source.Grammar.Statements
import DocLocale.Source.Grammar.Templates
import DocLocale.Source.Grammar.Types
import DocLocale.Source.Item
import DocLocale.Source.Location
import DocLocale.Source.Parse
import DocLocale.Source.Reference
import DocLocale.Source.Token
import DocLocale.StoredFiles
import DocLocale.Text.Blank
import DocLocale.Text.Bytes
import DocLocale.Text.Identifier
import DocLocale.Text.IdentifierTable
import DocLocale.Text.PrintTable
import DocLocale.Text.Quoted
import DocLocale.Text.Ranges
import DocLocale.Text.Width
import DocLocale.Text.WidthTable
import DocLocale.Translation.Translator
import DocLocale.Translation.Wrap
import DocLocale.Proofs.Tree.Spanning
import DocLocale.Proofs.Tree.Wiring
import DocLocale.Proofs.Tree.Walk
import DocLocale.Proofs.Tree.Lineage
import DocLocale.Proofs.Tree.Forest
import DocLocale.Proofs.Tree.Preorder
import DocLocale.Proofs.Project.Outlining
import DocLocale.Proofs.Key.Descent
import DocLocale.Proofs.Key.Generated
import DocLocale.Proofs.Render.KeyCoverage
import DocLocale.Proofs.Render.MisplacedOrder
import DocLocale.Proofs.Render.Printing
import DocLocale.Proofs.Project.Assembling
import DocLocale.Proofs.Command.IssueOrder
import DocLocale.Proofs.Doc.FlagRescan
import DocLocale.Proofs.Source.CommentScan
import DocLocale.Proofs.Doc.Expansion
import DocLocale.Proofs.Doc.RecordKey
import DocLocale.Proofs.Translation.WrapLines
import DocLocale.Proofs.Text.Runs
import DocLocale.Proofs.Text.Swelling
import DocLocale.Proofs.Translation.RecordLines
import DocLocale.Proofs.Doc.CommentRoundTrip
import DocLocale.Proofs.Key.Rereading
import DocLocale.Proofs.Json.Quoting
import DocLocale.Proofs.Key.Stored
import DocLocale.Proofs.Key.Merging
import DocLocale.Proofs.Disk.Overwriting
import DocLocale.Proofs.Command.Regeneration
import DocLocale.Proofs.Key.Ambiguity
import DocLocale.Proofs.Json.RepeatedFields
import DocLocale.Proofs.Key.Segments
import DocLocale.Proofs.Key.NamePaths
import DocLocale.Proofs.Key.SiblingNames
import DocLocale.Proofs.Render.CommentBlock
import DocLocale.Proofs.Key.Reloading
import DocLocale.Proofs.Path.Resolved
import DocLocale.Proofs.Project.Reachability
import DocLocale.Proofs.Path.Relative
import DocLocale.Proofs.Path.FileKeys
import DocLocale.Proofs.Command.FailedRuns
import DocLocale.Proofs.Render.TypeChars
import DocLocale.Proofs.Render.TypeReading
import DocLocale.Proofs.Source.Facing
import DocLocale.Proofs.Source.Taking
import DocLocale.Proofs.Source.Following
import DocLocale.Proofs.Source.TypeOpening
import DocLocale.Proofs.Source.TypeAtoms
import DocLocale.Proofs.Source.TypeObjects
import DocLocale.Proofs.Source.TypeFunctions
import DocLocale.Proofs.Source.Straying
import DocLocale.Proofs.Source.TypeLookahead
import DocLocale.Proofs.Source.TypeOperators
import DocLocale.Proofs.Render.SharedTexts
import DocLocale.Proofs.Source.TypeRereading
import DocLocale.Proofs.Translation.Lossless
import DocLocale.Proofs.Translation.Limits
import DocLocale.Proofs.Translation.Greedy
import DocLocale.Proofs.Doc.FlagOrder
import DocLocale.Proofs.Doc.FlagRecords
import DocLocale.Proofs.Key.WalkOrder
import DocLocale.Proofs.Text.Columns
import DocLocale.Proofs.Translation.TagWords
import DocLocale.Proofs.Key.Filling
import DocLocale.Proofs.Render.Indentation
import DocLocale.Proofs.Render.Positions
import DocLocale.Proofs.Render.Emission
import DocLocale.Proofs.Dump.TreeValues
import DocLocale.Proofs.Source.Directives
import DocLocale.Proofs.Command.Caret
import DocLocale.Proofs.Path.Locations
import DocLocale.Proofs.Source.Attaching
import DocLocale.Proofs.Source.Passing
import DocLocale.Proofs.Key.SharedViews
import DocLocale.Proofs.Render.CodeRows
import DocLocale.Proofs.Render.DeclarationChars
import DocLocale.Proofs.Render.DeclarationRows
import DocLocale.Proofs.Render.PlainNodes
import DocLocale.Proofs.Render.RenderedFiles
