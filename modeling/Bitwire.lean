import Bitwire.Bytes
import Bitwire.Pieces
import Bitwire.Text.Ranges
import Bitwire.Text.Category
import Bitwire.Text.Rune
import Bitwire.Text.Quoted
import Bitwire.Text.Location
import Bitwire.Token
import Bitwire.Fault
import Bitwire.Failure
import Bitwire.Lexeme
import Bitwire.Expr
import Bitwire.Design
import Bitwire.Design.Progress
import Bitwire.Verilog.Module
import Bitwire.Verilog.Lowering
import Bitwire.Verilog.Outline
import Bitwire.Compile
import Bitwire.Command.Options
import Bitwire.Command.Files
import Bitwire.Command.Listing
import Bitwire.Command.Line
import Bitwire.Main
import Bitwire.Proofs.Grammar
import Bitwire.Proofs.Coverage
import Bitwire.Proofs.Reading
import Bitwire.Proofs.Stopping
import Bitwire.Proofs.Declaring
import Bitwire.Proofs.Decoding
import Bitwire.Proofs.Scanning
import Bitwire.Proofs.Partition
import Bitwire.Proofs.Lexing
import Bitwire.Proofs.Stratified
import Bitwire.Proofs.Rereading
import Bitwire.Proofs.Fusing
import Bitwire.Proofs.Rendering
import Bitwire.Proofs.Erasure
import Bitwire.Proofs.Expecting
import Bitwire.Proofs.Locating
import Bitwire.Proofs.Pulling
import Bitwire.Proofs.Truncation
import Bitwire.Proofs.Bounds
import Bitwire.Proofs.Layout
import Bitwire.Proofs.Lines
import Bitwire.Proofs.LineGrammar
import Bitwire.Proofs.Outlining
import Bitwire.Proofs.Locations
import Bitwire.Proofs.Offsets
import Bitwire.Proofs.Messages
import Bitwire.Proofs.Joining
import Bitwire.Proofs.Recovery
import Bitwire.Proofs.Relocation
import Bitwire.Proofs.Faults
import Bitwire.Proofs.Compiling
import Bitwire.Proofs.Diagnosing
import Bitwire.Proofs.Storing
import Bitwire.Proofs.Building
import Bitwire.Proofs.Comparing
import Bitwire.Proofs.Spelling
import Bitwire.Proofs.Listing
