import Dcpu16.Text.Utf8
import Dcpu16.Text.Scan
import Dcpu16.Text.Numeral
import Dcpu16.Text.Quoted
import Dcpu16.Image.Basic
import Dcpu16.Machine.Word
import Dcpu16.Machine.Register
import Dcpu16.Machine.Operation
import Dcpu16.Message
import Dcpu16.Instruction.Basic
import Dcpu16.Instruction.Encode
import Dcpu16.Image.Cell
import Dcpu16.Image.Draft
import Dcpu16.Image.Decode
import Dcpu16.Image.Listing
import Dcpu16.Text.Letter
import Dcpu16.Text.Printable
import Dcpu16.Expression.Number
import Dcpu16.Expression.Value
import Dcpu16.Expression.Builtin
import Dcpu16.Expression.Token
import Dcpu16.Expression.Tree
import Dcpu16.Expression.Evaluate
import Dcpu16.Source.Error
import Dcpu16.Source.Basic
import Dcpu16.Source.Operand
import Dcpu16.Source.Line
import Dcpu16.Assembler
import Dcpu16.Session
import Dcpu16.CommandLine.Options
import Dcpu16.CommandLine.Files
import Dcpu16.CommandLine.Run
import Dcpu16.Main
import Dcpu16.Proofs.Text.Blank
import Dcpu16.Proofs.Text.Scan
import Dcpu16.Proofs.Table
import Dcpu16.Proofs.Image.Codec
import Dcpu16.Proofs.Image.Draft
import Dcpu16.Proofs.Image.Layout
import Dcpu16.Proofs.Image.Decode
import Dcpu16.Proofs.Text.Written
import Dcpu16.Proofs.Instruction.WellFormed
import Dcpu16.Proofs.Instruction.Names
import Dcpu16.Proofs.Source.Equates
import Dcpu16.Proofs.Session
import Dcpu16.Proofs.Source.Reread
import Dcpu16.Proofs.Source.RoundTrip
import Dcpu16.Proofs.Source.Accepted
import Dcpu16.Proofs.Image.Encoded
import Dcpu16.Proofs.Image.Recognition
import Dcpu16.Proofs.Image.Encodable
import Dcpu16.Proofs.Image.Verdict
import Dcpu16.Proofs.Source.Faults
import Dcpu16.Proofs.Source.Locations
import Dcpu16.Proofs.Image.Pending
import Dcpu16.Proofs.Image.Spans
import Dcpu16.Proofs.Image.Strict
import Dcpu16.Proofs.Image.Renaming
import Dcpu16.Proofs.Image.Symbols
import Dcpu16.Proofs.Image.Listing
import Dcpu16.Proofs.CommandLine.Arguments
import Dcpu16.Proofs.CommandLine.Run
import Dcpu16.Proofs.Source.Input
import Dcpu16.Proofs.Source.FirstFault
import Dcpu16.Proofs.Text.Run
import Dcpu16.Proofs.Text.Numeral
import Dcpu16.Proofs.Text.Token
import Dcpu16.Proofs.Source.Layout
import Dcpu16.Proofs.Source.Predefined
import Dcpu16.Proofs.Source.Position
import Dcpu16.Proofs.Source.Constant
import Dcpu16.Proofs.Source.Labels
import Dcpu16.Proofs.Image.Interrupted
import Dcpu16.Proofs.Source.Strings
import Dcpu16.Proofs.Source.Spellings
import Dcpu16.Proofs.Image.Trailing
import Dcpu16.Proofs.Text.Parts
