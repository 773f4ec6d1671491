import AbbrevSite.Abbreviation.Element
import AbbrevSite.Abbreviation.Expand
import AbbrevSite.Abbreviation.Extract
import AbbrevSite.Abbreviation.Markup
import AbbrevSite.Abbreviation.Sheet
import AbbrevSite.Abbreviation.Valid
import AbbrevSite.CommandLine.Files
import AbbrevSite.CommandLine.Options
import AbbrevSite.CommandLine.Report
import AbbrevSite.CommandLine.Run
import AbbrevSite.Completion
import AbbrevSite.Decimal.Digits
import AbbrevSite.Decimal.Notation
import AbbrevSite.Decimal.Shortest
import AbbrevSite.Dialect
import AbbrevSite.Failure
import AbbrevSite.Location
import AbbrevSite.Main
import AbbrevSite.Markup.Attribute
import AbbrevSite.Markup.Element
import AbbrevSite.Markup.Parse
import AbbrevSite.Markup.Piece
import AbbrevSite.Markup.Scan
import AbbrevSite.Markup.Tag
import AbbrevSite.Parse
import AbbrevSite.Proofs.Abbreviation.Budget
import AbbrevSite.Proofs.Abbreviation.Denotation
import AbbrevSite.Proofs.Abbreviation.Expansion
import AbbrevSite.Proofs.Abbreviation.Extract
import AbbrevSite.Proofs.Abbreviation.Grove
import AbbrevSite.Proofs.Abbreviation.Literal
import AbbrevSite.Proofs.Abbreviation.Lookahead
import AbbrevSite.Proofs.Abbreviation.Numbering
import AbbrevSite.Proofs.Abbreviation.Reach
import AbbrevSite.Proofs.Abbreviation.Source
import AbbrevSite.Proofs.Abbreviation.Writing
import AbbrevSite.Proofs.Completion.Again
import AbbrevSite.Proofs.Completion.Answer
import AbbrevSite.Proofs.Completion.Included
import AbbrevSite.Proofs.Completion.Markup
import AbbrevSite.Proofs.Completion.Sheet
import AbbrevSite.Proofs.Completion.StyleBody
import AbbrevSite.Proofs.Completion.Value
import AbbrevSite.Proofs.Markup.Backtrack
import AbbrevSite.Proofs.Markup.Brackets
import AbbrevSite.Proofs.Markup.Closing
import AbbrevSite.Proofs.Markup.Elements
import AbbrevSite.Proofs.Markup.Excerpt
import AbbrevSite.Proofs.Markup.Nesting
import AbbrevSite.Proofs.Markup.Nodes
import AbbrevSite.Proofs.Markup.Pieces
import AbbrevSite.Proofs.Markup.PlainText
import AbbrevSite.Proofs.Markup.Printed
import AbbrevSite.Proofs.Markup.RoundTrip
import AbbrevSite.Proofs.Markup.Runs
import AbbrevSite.Proofs.Markup.Scan
import AbbrevSite.Proofs.Markup.Source
import AbbrevSite.Proofs.Markup.Tags
import AbbrevSite.Proofs.Region.BlankedRegion
import AbbrevSite.Proofs.Region.BlankedTree
import AbbrevSite.Proofs.Region.Bounds
import AbbrevSite.Proofs.Region.Comment
import AbbrevSite.Proofs.Region.Excerpt
import AbbrevSite.Proofs.Region.Leaving
import AbbrevSite.Proofs.Region.Markers
import AbbrevSite.Proofs.Region.Neutral
import AbbrevSite.Proofs.Region.Readable
import AbbrevSite.Proofs.Region.Rule
import AbbrevSite.Proofs.Region.Turns
import AbbrevSite.Proofs.Region.Verdict
import AbbrevSite.Proofs.Region.Walk
import AbbrevSite.Proofs.Region.Window
import AbbrevSite.Proofs.Settings.Fields
import AbbrevSite.Proofs.Settings.Files
import AbbrevSite.Proofs.Settings.Override
import AbbrevSite.Proofs.Settings.Saving
import AbbrevSite.Proofs.Settings.Settled
import AbbrevSite.Proofs.Sheet.Alike
import AbbrevSite.Proofs.Sheet.Balance
import AbbrevSite.Proofs.Sheet.Beyond
import AbbrevSite.Proofs.Sheet.BlankedParse
import AbbrevSite.Proofs.Sheet.Blanking
import AbbrevSite.Proofs.Sheet.Block
import AbbrevSite.Proofs.Sheet.Comments
import AbbrevSite.Proofs.Sheet.Cover
import AbbrevSite.Proofs.Sheet.Excerpt
import AbbrevSite.Proofs.Sheet.Flat
import AbbrevSite.Proofs.Sheet.Lexing
import AbbrevSite.Proofs.Sheet.Nodes
import AbbrevSite.Proofs.Sheet.Plain
import AbbrevSite.Proofs.Sheet.Prelude
import AbbrevSite.Proofs.Sheet.Roots
import AbbrevSite.Proofs.Sheet.RoundTrip
import AbbrevSite.Proofs.Sheet.Run
import AbbrevSite.Proofs.Sheet.Scan
import AbbrevSite.Proofs.Sheet.Source
import AbbrevSite.Proofs.Sheet.Statement
import AbbrevSite.Proofs.Sheet.Tiling
import AbbrevSite.Proofs.Sheet.Windows
import AbbrevSite.Proofs.Sheet.Words
import AbbrevSite.Proofs.Sheet.Written
import AbbrevSite.Proofs.Text.Ahead
import AbbrevSite.Proofs.Text.Blanked
import AbbrevSite.Proofs.Text.Excerpt
import AbbrevSite.Proofs.Text.Indexing
import AbbrevSite.Proofs.Text.Lines
import AbbrevSite.Proofs.Text.Offsets
import AbbrevSite.Proofs.Text.Order
import AbbrevSite.Proofs.Text.Places
import AbbrevSite.Proofs.Text.Reader
import AbbrevSite.Proofs.Toml.Keyed
import AbbrevSite.Proofs.Toml.Tables
import AbbrevSite.Proofs.Toml.Values
import AbbrevSite.Proofs.Tree.Arena
import AbbrevSite.Proofs.Tree.Behind
import AbbrevSite.Proofs.Tree.Blocks
import AbbrevSite.Proofs.Tree.Closing
import AbbrevSite.Proofs.Tree.Deepest
import AbbrevSite.Proofs.Tree.Descent
import AbbrevSite.Proofs.Tree.Growth
import AbbrevSite.Proofs.Tree.Layout
import AbbrevSite.Proofs.Tree.Links
import AbbrevSite.Proofs.Tree.Listing
import AbbrevSite.Proofs.Tree.Numbers
import AbbrevSite.Proofs.Tree.Pushed
import AbbrevSite.Proofs.Tree.Sight
import AbbrevSite.Proofs.Tree.Sketch
import AbbrevSite.Proofs.Tree.Slots
import AbbrevSite.Proofs.Tree.Stored
import AbbrevSite.Proofs.Tree.Tokens
import AbbrevSite.Region.Back
import AbbrevSite.Region.Parse
import AbbrevSite.Region.Search
import AbbrevSite.Settings.Basic
import AbbrevSite.Settings.Decode
import AbbrevSite.Settings.Encode
import AbbrevSite.Settings.Limits
import AbbrevSite.Settings.Modes
import AbbrevSite.Sheet.Lexeme
import AbbrevSite.Sheet.Parse
import AbbrevSite.Sheet.Prelude
import AbbrevSite.Sheet.Scan
import AbbrevSite.Text.Alphabetic
import AbbrevSite.Text.CharClass
import AbbrevSite.Text.Cursor
import AbbrevSite.Text.Document
import AbbrevSite.Text.Glyph
import AbbrevSite.Text.Number
import AbbrevSite.Text.Position
import AbbrevSite.Text.Quoted
import AbbrevSite.Text.Unprintable
import AbbrevSite.Toml.Assembly
import AbbrevSite.Toml.Datetime
import AbbrevSite.Toml.Format
import AbbrevSite.Toml.Lexical
import AbbrevSite.Toml.Read
import AbbrevSite.Toml.Scalar
import AbbrevSite.Toml.Table
import AbbrevSite.Toml.Value
import AbbrevSite.Toml.Write
import AbbrevSite.Tree.Arena
import AbbrevSite.Tree.Basic
import AbbrevSite.Tree.Builder
import AbbrevSite.Tree.Forest
import AbbrevSite.Tree.Lookup
import AbbrevSite.Tree.Node
import AbbrevSite.Tree.Outline
import AbbrevSite.Proofs.Text.LineTable
