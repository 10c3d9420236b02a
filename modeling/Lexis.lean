import Lexis.Fault
import Lexis.Span
import Lexis.Byte
import Lexis.Text.Utf8
import Lexis.Text.Quoted
import Lexis.Text.White
import Lexis.Token.Basic
import Lexis.Config
import Lexis.Location
import Lexis.Lexeme
import Lexis.Reading
import Lexis.Lexer.Run
import Lexis.Lexer.Strict
import Lexis.Event
import Lexis.Diagnostic
import Lexis.Main
import Lexis.Proofs.Nesting
import Lexis.Proofs.LexicalGrammar
import Lexis.Proofs.Scan
import Lexis.Proofs.Utf8
import Lexis.Proofs.LexemeText
import Lexis.Proofs.LongestMatch
import Lexis.Proofs.Coverage
import Lexis.Proofs.Fidelity
import Lexis.Proofs.Resynchronization
import Lexis.Proofs.Order
import Lexis.Proofs.Truncation
import Lexis.Proofs.Calls
import Lexis.Proofs.StreamCursor
import Lexis.Proofs.Reports
import Lexis.Proofs.QuoteSpans
import Lexis.Proofs.Trivia
import Lexis.Proofs.LineBreaks
import Lexis.Proofs.Positions
import Lexis.Proofs.TokenPositions
import Lexis.Proofs.LineText
import Lexis.Proofs.Lines
import Lexis.Proofs.CaretWidth
import Lexis.Proofs.Progress
import Lexis.Proofs.Appending
import Lexis.Proofs.Isolation
import Lexis.Proofs.LineEndings
import Lexis.Proofs.LineEndingStyle
import Lexis.Proofs.TokenLines
import Lexis.Proofs.Bytewise.Comments
import Lexis.Proofs.Bytewise.Literals
import Lexis.Proofs.Bytewise.Next
import Lexis.Proofs.Collecting
import Lexis.Proofs.Faults
import Lexis.Proofs.PlainSlashes
import Lexis.Proofs.Verdict
import Lexis.Proofs.CommentGrammar
import Lexis.Proofs.LineComments
import Lexis.Proofs.Strictness
import Lexis.Proofs.DiagnosticLines
