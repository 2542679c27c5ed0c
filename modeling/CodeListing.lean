import CodeListing.CodeBlock
import CodeListing.CommandLine
import CodeListing.Config
import CodeListing.Draft
import CodeListing.Error
import CodeListing.Fallback
import CodeListing.Fence
import CodeListing.Fence.Grammar
import CodeListing.Fence.Reader
import CodeListing.Fence.Spans
import CodeListing.Highlighter
import CodeListing.Json.Number
import CodeListing.Json.Reader
import CodeListing.Json.Shape
import CodeListing.Json.Skip
import CodeListing.Json.Writer
import CodeListing.Line.Comment
import CodeListing.Line.Comment.Grammar
import CodeListing.Line.Directive
import CodeListing.Line.Directive.Grammar
import CodeListing.Line.History
import CodeListing.Line.Mark
import CodeListing.Line.Progress
import CodeListing.Listing
import CodeListing.Listing.Fault
import CodeListing.Listing.Page
import CodeListing.Listing.Transcript
import CodeListing.Main
import CodeListing.Markup
import CodeListing.Markup.Element
import CodeListing.Markup.Reader
import CodeListing.Markup.Spans
import CodeListing.OutputBuffer
import CodeListing.OutputBuffer.History
import CodeListing.Pattern
import CodeListing.Proofs.Atomicity
import CodeListing.Proofs.BrokenOff
import CodeListing.Proofs.BufferHistory
import CodeListing.Proofs.Cascade
import CodeListing.Proofs.Color
import CodeListing.Proofs.ColorText
import CodeListing.Proofs.Digits
import CodeListing.Proofs.Directive
import CodeListing.Proofs.DirectiveComment
import CodeListing.Proofs.Draft
import CodeListing.Proofs.Escaping
import CodeListing.Proofs.FenceLine
import CodeListing.Proofs.FirstFault
import CodeListing.Proofs.FontStyle
import CodeListing.Proofs.Gutter
import CodeListing.Proofs.Highlighter
import CodeListing.Proofs.History
import CodeListing.Proofs.InfoString
import CodeListing.Proofs.Inheritance
import CodeListing.Proofs.LineNumbers
import CodeListing.Proofs.Lines
import CodeListing.Proofs.LostText
import CodeListing.Proofs.Mark
import CodeListing.Proofs.Markup
import CodeListing.Proofs.Nesting
import CodeListing.Proofs.NormalForm
import CodeListing.Proofs.OutputBuffer
import CodeListing.Proofs.Page
import CodeListing.Proofs.Pattern
import CodeListing.Proofs.RangeList
import CodeListing.Proofs.Ranking
import CodeListing.Proofs.Regex
import CodeListing.Proofs.Relaxation
import CodeListing.Proofs.Reuse
import CodeListing.Proofs.ScopeParts
import CodeListing.Proofs.Selector
import CodeListing.Proofs.SelectorText
import CodeListing.Proofs.Separators
import CodeListing.Proofs.SourceText
import CodeListing.Proofs.Spans
import CodeListing.Proofs.StrayTokens
import CodeListing.Proofs.StyleCache
import CodeListing.Proofs.StyleText
import CodeListing.Proofs.ThemeRules
import CodeListing.Proofs.Utf8
import CodeListing.Proofs.Words
import CodeListing.Regex
import CodeListing.Style
import CodeListing.Style.Color
import CodeListing.Style.Color.Grammar
import CodeListing.Style.FontStyle
import CodeListing.Style.Json
import CodeListing.Style.Shown
import CodeListing.Stylesheet
import CodeListing.Text.CodePoints
import CodeListing.Text.Letters
import CodeListing.Text.Lines
import CodeListing.Text.Numeral
import CodeListing.Text.Occurrence
import CodeListing.Text.Utf8
import CodeListing.Text.WhiteSpace
import CodeListing.Theme
import CodeListing.Theme.Meaning
import CodeListing.Theme.Ranking
import CodeListing.Theme.Rules
import CodeListing.Theme.Selector
import CodeListing.Theme.Source
import CodeListing.Theme.Stylist
import CodeListing.Tokenizer
