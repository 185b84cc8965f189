import ScriptFront.Error.Report
import ScriptFront.Expr.Basic
import ScriptFront.Session.Call
import ScriptFront.Proofs.Runs
import ScriptFront.Proofs.Stream
import ScriptFront.Proofs.Tiling
import ScriptFront.Proofs.Blanks
import ScriptFront.Proofs.ClosingQuote
import ScriptFront.Proofs.Decimals
import ScriptFront.Proofs.Printing
import ScriptFront.Proofs.Faults
import ScriptFront.Proofs.Lexemes
import ScriptFront.Proofs.Lookahead
import ScriptFront.Proofs.Results
import ScriptFront.Proofs.Joining
import ScriptFront.Proofs.Stopping
import ScriptFront.Proofs.Locations
import ScriptFront.Proofs.Reports
import ScriptFront.Proofs.LineEndings
import ScriptFront.Proofs.Places
import ScriptFront.Proofs.Relocation
import ScriptFront.Proofs.Agreement
import ScriptFront.Proofs.Skipped
import ScriptFront.Proofs.Trivia
import ScriptFront.Proofs.Munch
import ScriptFront.Proofs.Encodings
import ScriptFront.Proofs.Extent
import ScriptFront.Proofs.Boundaries
import ScriptFront.Proofs.Lookup
import ScriptFront.Proofs.Addresses
import ScriptFront.Proofs.Layout
import ScriptFront.Proofs.Reached
import ScriptFront.Proofs.Neighbours
import ScriptFront.Proofs.Ties
import ScriptFront.Proofs.Progress
import ScriptFront.Proofs.Enclosing
import ScriptFront.Proofs.Numerals
import ScriptFront.Proofs.Literals
import ScriptFront.Proofs.Messages
import ScriptFront.Proofs.BitPatterns
import ScriptFront.Proofs.Rounding
import ScriptFront.Proofs.Values
import ScriptFront.Proofs.Equality
