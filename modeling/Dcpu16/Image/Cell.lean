/-
What each instruction contributes to an image, cell by cell: words that are known, words that
hold the address of a label, label definitions, which take no space, and the fault at which an
instruction that cannot be encoded stops. The cells of an instruction depend on nothing else.
-/
import Dcpu16.Instruction.Encode
import Dcpu16.Instruction.Basic

namespace Dcpu16

/-- Why an instruction cannot become part of an image. -/
inductive ImageError where
  | operand (e : OperandError)
  | tooLarge
  | instructionInvalid
  | datumInvalid
  | labelMissing (name : Text)
  | labelDuplicate (name : Text)
deriving DecidableEq, Repr

def ImageError.message : ImageError → Text
  | .operand e => e.message
  | .tooLarge => Text.ofString "program does not fit in 0x10000 words"
  | .instructionInvalid => Text.ofString "instruction invalid"
  | .datumInvalid => Text.ofString "data item invalid"
  | .labelMissing name => Message.format (Text.ofString "label %v missing") [.text name]
  | .labelDuplicate name => Message.format (Text.ofString "label %v duplicated") [.text name]

/-- An error at an instruction of the program. -/
structure InstructionError where
  index : Nat
  instruction : Instruction
  error : ImageError
deriving DecidableEq, Repr

def InstructionError.message (e : InstructionError) : Text :=
  Message.format (Text.ofString "instruction %d '%v' %v")
    [.int e.index, .text e.instruction.render, .text e.error.message]

/-- A piece of an image in the making. -/
inductive Cell where
  | word (value : Word)
  | reference (label : Text)
  | define (label : Text)
  | fault (error : ImageError)
deriving DecidableEq, Repr

/-- The cell of a trailing literal. -/
def Literal.cell : Literal → Cell
  | .number w => .word w
  | .label name => .reference name

/-- The cell of the trailing word, if the field has one. -/
def Field.trailing (f : Field) : List Cell := (f.next.map Literal.cell).toList

/-- The cells of a data item. -/
def Datum.cells : Datum → List Cell
  | .label name => [.define name]
  | .word w => [.word w]
  | .string t => (Datum.stringWords t).map .word
  | .missing | .foreign _ => [.fault .datumInvalid]

namespace Instruction

/-- The cells of a basic instruction: its word, then the trailing word of the value, then that
of the destination. The value is encoded first, so its error comes first. -/
def basicCells (op : BasicOp) (b a : Operand) : List Cell :=
  match op.code? with
  | none => [.fault .instructionInvalid]
  | some code =>
    match a.encodeValue with
    | .error e => [.fault (.operand e)]
    | .ok value =>
      match b.encodeDestination with
      | .error e => [.fault (.operand e)]
      | .ok dest => .word (Word.packBasic code dest.code value.code) :: (value.trailing ++ dest.trailing)

/-- The cells of a special instruction: its word, then the trailing word of the value. -/
def specialCells (op : SpecialOp) (a : Operand) : List Cell :=
  match op.code? with
  | none => [.fault .instructionInvalid]
  | some code =>
    match a.encodeValue with
    | .error e => [.fault (.operand e)]
    | .ok value => .word (Word.packSpecial code value.code) :: value.trailing

/-- The cells of an instruction. -/
def cells : Instruction → List Cell
  | .basic op b a => basicCells op b a
  | .special op a => specialCells op a
  | .label name => [.define name]
  | .data items => items.flatMap Datum.cells
  | .missing | .foreign _ => [.fault .instructionInvalid]

end Instruction

end Dcpu16
