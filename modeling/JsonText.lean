import JsonText.Token.Kind
import JsonText.Token.Basic
import JsonText.Token.Scan
import JsonText.Lexeme.Basic
import JsonText.Lexeme.Number
import JsonText.Lexeme.Quoted
import JsonText.Lexeme.Search
import JsonText.Except
import JsonText.Reader.Slice
import JsonText.Reader.Matcher
import JsonText.Reader.Basic
import JsonText.Reader.Session
import JsonText.Layout.Buffer
import JsonText.Layout.Indent
import JsonText.Layout.Basic
import JsonText.Document.Basic
import JsonText.Document.Escape
import JsonText.Document.Print
import JsonText.Document.Parse
import JsonText.Decimal.Basic
import JsonText.Decimal.Binary
import JsonText.Decimal.Shortest
import JsonText.Decimal.Spelling
import JsonText.Value.Basic
import JsonText.Value.Serialize
import JsonText.Standard.Quote
import JsonText.Standard.Error
import JsonText.Standard.Writer
import JsonText.Pipeline
import JsonText.Proofs.Lexeme.Number
import JsonText.Proofs.Lexeme.Longest
import JsonText.Proofs.Lexeme.Run
import JsonText.Proofs.Lexeme.Quoted
import JsonText.Proofs.Lexeme.Escaped
import JsonText.Proofs.Lexeme.Pattern
import JsonText.Proofs.Lexeme.Closing
import JsonText.Proofs.Token.Spelling
import JsonText.Proofs.Lexeme.Preferred
import JsonText.Proofs.Token.Language
import JsonText.Proofs.Token.Cutting
import JsonText.Proofs.Token.Spaced
import JsonText.Proofs.Token.Stream
import JsonText.Proofs.Token.Boundary
import JsonText.Proofs.Token.Unknown
import JsonText.Proofs.Token.Longest
import JsonText.Proofs.Token.Filler
import JsonText.Proofs.Token.Readable
import JsonText.Proofs.Token.Grammar
import JsonText.Proofs.Layout.Depth
import JsonText.Proofs.Layout.Format
import JsonText.Proofs.Layout.Minify
import JsonText.Proofs.Layout.Fusion
import JsonText.Proofs.Layout.Idempotence
import JsonText.Proofs.Layout.Separators
import JsonText.Proofs.Layout.Locality
import JsonText.Proofs.Layout.Lines
import JsonText.Proofs.Reader.Lossless
import JsonText.Proofs.Reader.Backlog
import JsonText.Proofs.Document.Escape
import JsonText.Proofs.Document.Spelling
import JsonText.Proofs.Document.Pretty
import JsonText.Proofs.Document.Parsing
import JsonText.Proofs.Document.Compact
import JsonText.Proofs.Decimal.Spelling
import JsonText.Proofs.Pipeline.Layouts
import JsonText.Proofs.Value.Documented
import JsonText.Proofs.Value.Standard
import JsonText.Proofs.Value.Tree
import JsonText.Proofs.Value.Writing
import JsonText.Proofs.Value.Dump
import JsonText.Proofs.Value.Failure
