/-
Encoding operands: the code of a field, and the literal of the trailing word where the code
needs one. A value that is a small number has a code of its own; a label never does, because its
address is not known yet.
-/
import Dcpu16.Instruction.Basic
import Dcpu16.Message

namespace Dcpu16

/-- An encoded operand: the code of its field, and what the trailing word holds. -/
structure Field where
  code : Word
  next : Option Literal := none
deriving DecidableEq, Repr

/-- Why an operand cannot be encoded. -/
inductive OperandError where
  | missing
  | invalid
  | registerInvalid
  | indirect (r : Register) (offset : Bool)
deriving DecidableEq, Repr

def OperandError.message : OperandError → Text
  | .missing => Text.ofString "operand missing"
  | .invalid => Text.ofString "operand invalid"
  | .registerInvalid => Text.ofString "register invalid"
  | .indirect r false =>
    Message.format (Text.ofString "indirect %v access is not possible on the DCPU-16") [.text r.name]
  | .indirect r true =>
    Message.format (Text.ofString "indirect %v access with offset is not possible on the DCPU-16")
      [.text r.name]

namespace Register

/-- Why a register is no pointer: the machine has no code for it, or it is none. -/
def indirectError (r : Register) (offset : Bool) : OperandError :=
  if r.valid then .indirect r offset else .registerInvalid

/-- The field of a register itself. -/
def field (r : Register) : Except OperandError Field :=
  match r.code? with
  | some c => .ok { code := c }
  | none => .error .registerInvalid

/-- The field of the memory word that a register points to. -/
def indirectField (r : Register) : Except OperandError Field :=
  match r.indirectCode? with
  | some c => .ok { code := c }
  | none => .error (r.indirectError false)

/-- The field of the memory word that a register plus a literal points to. -/
def offsetField (r : Register) (l : Literal) : Except OperandError Field :=
  match r.offsetCode? with
  | some c => .ok { code := c, next := some l }
  | none => .error (r.indirectError true)

end Register

/-- The field of a literal as a value: the code that holds a small number, else the code of the
next word. -/
def Literal.field : Literal → Field
  | .number w =>
    match w.inlineCode? with
    | some c => { code := c }
    | none => { code := Word.nextLiteralCode, next := some (.number w) }
  | .label name => { code := Word.nextLiteralCode, next := some (.label name) }

namespace Operand

/-- The field of an operand as a value. -/
def encodeValue : Operand → Except OperandError Field
  | .pop => .ok { code := Word.stackCode }
  | .immediate l => .ok l.field
  | .register r => r.field
  | .indirect r => r.indirectField
  | .offset r l => r.offsetField l
  | .memory l => .ok { code := Word.nextIndirectCode, next := some l }
  | .missing => .error .missing
  | .push | .foreign _ => .error .invalid

/-- The field of an operand as a destination. -/
def encodeDestination : Operand → Except OperandError Field
  | .push => .ok { code := Word.stackCode }
  | .register r => r.field
  | .indirect r => r.indirectField
  | .offset r l => r.offsetField l
  | .memory l => .ok { code := Word.nextIndirectCode, next := some l }
  | .missing => .error .missing
  | .pop | .immediate _ | .foreign _ => .error .invalid

end Operand

end Dcpu16
