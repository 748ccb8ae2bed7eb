/-
What can be wrong with a source: a fault of a line, of reading it, or of an instruction when its
image is made.
-/
import Dcpu16.Image.Cell

namespace Dcpu16

/-- What is wrong with a line. -/
inductive LineError where
  | equateSyntax
  | equateDuplicate
  | equateLoop
  | labelInvalid
  | opcodeInvalid
  | operandMissing
  | operandExtra
  | destinationInvalid
  | valueInvalid
  | indirectionInvalid
  | dataInvalid
  | stringUnterminated
  | stringEncoding
  | notNumber (word : Text)
  | notValue (word : Text)
  | notCharacter (word : Text)
  | notExpression (expression : Text)
deriving DecidableEq, Repr

def LineError.message : LineError → Text
  | .equateSyntax => Text.ofString ".equ syntax"
  | .equateDuplicate => Text.ofString ".equ duplicated"
  | .equateLoop => Text.ofString ".equ refers to itself"
  | .labelInvalid => Text.ofString "label name invalid"
  | .opcodeInvalid => Text.ofString "opcode invalid"
  | .operandMissing => Text.ofString "operand missing"
  | .operandExtra => Text.ofString "excessive operands"
  | .destinationInvalid => Text.ofString "operand can not be a destination"
  | .valueInvalid => Text.ofString "operand can not be a value"
  | .indirectionInvalid => Text.ofString "indirection invalid"
  | .dataInvalid => Text.ofString "data item invalid"
  | .stringUnterminated => Text.ofString "string unterminated"
  | .stringEncoding => Text.ofString "string is not valid UTF-8"
  | .notNumber w => Message.format (Text.ofString "'%v' is not a number") [.text w]
  | .notValue w => Message.format (Text.ofString "'%v' is not a value or register") [.text w]
  | .notCharacter w => Message.format (Text.ofString "'%v' is not a character") [.text w]
  | .notExpression e => Message.format (Text.ofString "$(%v) is not a valid expression") [.text e]

/-- Why reading stopped before the end: a line that does not fit, or a failure of the input. -/
inductive ReadError where
  | lineTooLong
  | input (message : Text)
deriving DecidableEq, Repr

def ReadError.message : ReadError → Text
  | .lineTooLong => Text.ofString "bufio.Scanner: token too long"
  | .input message => message

/-- A fault of a source. -/
inductive SourceError where
  | line (e : LineError)
  | read (e : ReadError)
  | image (e : ImageError)
deriving DecidableEq, Repr

def SourceError.message : SourceError → Text
  | .line e => e.message
  | .read e => e.message
  | .image e => e.message

/-- A fault with the line it belongs to. -/
structure SyntaxError where
  lineNumber : Int
  line : Text
  error : SourceError
deriving DecidableEq, Repr

def SyntaxError.message (e : SyntaxError) : Text :=
  Message.format (Text.ofString "line %d '%v' %v")
    [.int e.lineNumber, .text e.line, .text e.error.message]

end Dcpu16
