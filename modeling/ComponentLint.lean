import ComponentLint.Block.Basic
import ComponentLint.Block.Keep
import ComponentLint.Block.Piece
import ComponentLint.Block.Restore
import ComponentLint.Command.Arguments
import ComponentLint.Command.Run
import ComponentLint.Compiler.Basic
import ComponentLint.Compiler.Codec
import ComponentLint.Entries
import ComponentLint.Json.Basic
import ComponentLint.Json.Decoder
import ComponentLint.Json.Double
import ComponentLint.Json.Numeral
import ComponentLint.Json.Parser
import ComponentLint.Json.Printer
import ComponentLint.Json.Token
import ComponentLint.LineTable
import ComponentLint.Lint.Blocks
import ComponentLint.Lint.Consultation
import ComponentLint.Lint.Prepare
import ComponentLint.Lint.Session
import ComponentLint.Lint.Transpile
import ComponentLint.Main
import ComponentLint.Markup.Attributes
import ComponentLint.Markup.Blank
import ComponentLint.Markup.Element
import ComponentLint.Message
import ComponentLint.Outdent
import ComponentLint.Position
import ComponentLint.Proofs.Block.Edits
import ComponentLint.Proofs.Block.FixRange
import ComponentLint.Proofs.Block.Outline
import ComponentLint.Proofs.Block.Positions
import ComponentLint.Proofs.Block.Referenced
import ComponentLint.Proofs.Block.Registry
import ComponentLint.Proofs.Block.Site
import ComponentLint.Proofs.Compiler.Codec
import ComponentLint.Proofs.Compiler.Replay
import ComponentLint.Proofs.Entries
import ComponentLint.Proofs.Fix
import ComponentLint.Proofs.Json.Numerals
import ComponentLint.Proofs.Json.Records
import ComponentLint.Proofs.Json.Text
import ComponentLint.Proofs.Json.Values
import ComponentLint.Proofs.LineTable
import ComponentLint.Proofs.LineTable.Breaks
import ComponentLint.Proofs.LineTable.Parts
import ComponentLint.Proofs.LineTable.Places
import ComponentLint.Proofs.LineTable.Returns
import ComponentLint.Proofs.LineTable.Words
import ComponentLint.Proofs.Lint.Composition
import ComponentLint.Proofs.Lint.Copies
import ComponentLint.Proofs.Lint.MappedOrder
import ComponentLint.Proofs.Lint.Rejection
import ComponentLint.Proofs.Lint.Relocation
import ComponentLint.Proofs.Lint.Report
import ComponentLint.Proofs.Lint.Shown
import ComponentLint.Proofs.Lint.Transpile
import ComponentLint.Proofs.Lists
import ComponentLint.Proofs.Markup.Blanking
import ComponentLint.Proofs.Markup.Clearing
import ComponentLint.Proofs.Markup.Leftover
import ComponentLint.Proofs.Markup.Pattern
import ComponentLint.Proofs.Markup.Rescan
import ComponentLint.Proofs.Markup.Search
import ComponentLint.Proofs.Markup.Unmoved
import ComponentLint.Proofs.Markup.Written
import ComponentLint.Proofs.Outdent
import ComponentLint.Proofs.Outdent.Inverse
import ComponentLint.Proofs.SourceMap.Acceptance
import ComponentLint.Proofs.SourceMap.Encoding
import ComponentLint.Proofs.SourceMap.Following
import ComponentLint.Proofs.SourceMap.Order
import ComponentLint.Proofs.SourceMap.Range
import ComponentLint.Proofs.SourceMap.Reader
import ComponentLint.Proofs.SourceMap.Weave
import ComponentLint.Proofs.Template.Codec
import ComponentLint.Proofs.Template.Declarations
import ComponentLint.Proofs.Template.Marks
import ComponentLint.Proofs.Template.Patterns
import ComponentLint.Proofs.Template.Tree
import ComponentLint.Proofs.Template.Walk
import ComponentLint.Proofs.Text.Bytes
import ComponentLint.Proofs.Text.Margins
import ComponentLint.Recording
import ComponentLint.Report
import ComponentLint.Settings
import ComponentLint.SourceMap.Mappings
import ComponentLint.SourceMap.Segment
import ComponentLint.SourceMap.Splice
import ComponentLint.Span
import ComponentLint.Template.Binding
import ComponentLint.Template.Codec
import ComponentLint.Template.Node
import ComponentLint.Template.Script
import ComponentLint.Text.Basic
import ComponentLint.Text.Hidden
import ComponentLint.Text.Lines
import ComponentLint.Text.Quoted
import ComponentLint.Text.Whitespace
