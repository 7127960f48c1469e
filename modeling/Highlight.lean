import Highlight.Cache.Basic
import Highlight.Cache.Edit
import Highlight.Color
import Highlight.Config.Basic
import Highlight.Config.File
import Highlight.Config.Toml
import Highlight.Files
import Highlight.Format
import Highlight.Grammar.Basic
import Highlight.Grammar.Builtin
import Highlight.Grammar.File
import Highlight.Grammar.Override
import Highlight.Grammar.Toml
import Highlight.Grammar.Validity
import Highlight.Json.Parser
import Highlight.Json.Printer
import Highlight.Json.Value
import Highlight.Language
import Highlight.Lexer.Basic
import Highlight.Lexer.Comment
import Highlight.Lexer.Directive
import Highlight.Lexer.Lexeme
import Highlight.Lexer.Numeral
import Highlight.Lexer.Punctuation
import Highlight.Lexer.Quoted
import Highlight.Lexer.Space
import Highlight.Lexer.Word
import Highlight.Offset
import Highlight.Ordered
import Highlight.Path
import Highlight.Proofs.List
import Highlight.Proofs.Lexer.Cursor
import Highlight.Proofs.Lexer.Progress
import Highlight.Proofs.Lexer.Walk
import Highlight.Proofs.Offset
import Highlight.Proofs.Text.Byte
import Highlight.Proofs.Token.Tiling
import Highlight.Registry
import Highlight.Render.Ansi
import Highlight.Render.Html
import Highlight.Render.Piece
import Highlight.Render.StyledSpan
import Highlight.Session
import Highlight.Style
import Highlight.Text.Ascii
import Highlight.Text.Byte
import Highlight.Text.Hex
import Highlight.Text.Slice
import Highlight.Text.Space
import Highlight.Text.Utf8
import Highlight.Theme.Basic
import Highlight.Theme.File
import Highlight.Theme.Json
import Highlight.Token
import Highlight.Toml.Document
import Highlight.Toml.Number
import Highlight.Toml.Parser
import Highlight.Toml.Printer
import Highlight.Toml.Text
import Highlight.Toml.Value
import Highlight.WordSet
import Highlight.Proofs.Lexer.Access
import Highlight.Proofs.Cache.Region
import Highlight.Proofs.Cache.Relex
import Highlight.Proofs.Cache.Tiling
import Highlight.Proofs.Cache.Access
import Highlight.Proofs.Lexer.Lookahead
import Highlight.Proofs.Lexer.Lookback
import Highlight.Proofs.Lexer.Stop
import Highlight.Proofs.Cache.Equivalence
import Highlight.Proofs.Text.Boundary
import Highlight.Proofs.Lexer.Boundary
import Highlight.Proofs.Grammar.Validity
import Highlight.Proofs.Lexer.Line
import Highlight.Proofs.Render.Piece
import Highlight.Proofs.Render.Lines
import Highlight.Proofs.Render.Counting
import Highlight.Proofs.Render.Terminal
import Highlight.Proofs.Render.Markup
import Highlight.Proofs.Render.Html
import Highlight.Proofs.Session
import Highlight.Proofs.Grammar.Override
import Highlight.Proofs.Lexer.Override
import Highlight.Proofs.Registry.Lookup
import Highlight.Proofs.Registry.Override
import Highlight.Proofs.Registry.Invariant
import Highlight.Proofs.Registry.Order
import Highlight.Proofs.Render.LineNumbers
import Highlight.Proofs.Text.Utf8
import Highlight.Proofs.Files
import Highlight.Proofs.Json.RoundTrip
import Highlight.Proofs.Color.Digits
import Highlight.Proofs.Theme
import Highlight.Proofs.Toml.Text
import Highlight.Proofs.Toml.Lines
import Highlight.Proofs.Toml.Document
import Highlight.Proofs.Toml.Layout
import Highlight.Proofs.Format
import Highlight.Proofs.Config
import Highlight.Proofs.Lexer.Word
import Highlight.Proofs.Lexer.Numeral
import Highlight.Proofs.Lexer.Quoted
import Highlight.Proofs.Cache.Query
import Highlight.Proofs.Grammar.Builtin
import Highlight.Proofs.Render.StyledSpan
import Highlight.Proofs.Lexer.Raw
import Highlight.Proofs.Lexer.Header
import Highlight.Proofs.Registry.Detection
import Highlight.Proofs.Color.Text
import Highlight.Proofs.Render.Pen
import Highlight.Proofs.Color.Palette
import Highlight.Proofs.Render.Css
import Highlight.Proofs.Render.Look
import Highlight.Proofs.Cache.Splice
