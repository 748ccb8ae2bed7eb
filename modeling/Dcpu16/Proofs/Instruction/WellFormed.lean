/-
Well-formed instruction trees: nothing missing or foreign, every register and operation one of the
machine's, every operand of the kind its position takes, and every name one that a source can write in
its place. Such a tree is what a source can say; what its names refer to is another matter.
-/
import Dcpu16.Instruction.Basic
import Dcpu16.Text.Scan

namespace Dcpu16

/-! ## Well-formed nodes -/

/-- A name that refers to a label is no register's, in any letter case. -/
def Literal.wellFormed : Literal → Bool
  | .number _ => true
  | .label name => Text.isName name && (Register.ofName? (Text.upper name)).isNone

/-- The names that are operands by themselves, in upper case. -/
def Operand.keywords : List Text := [Text.ofString "PUSH", Text.ofString "POP", Text.ofString "PEEK"]

/-- A label whose name would be read as an operand of another kind. -/
def Literal.isKeyword : Literal → Bool
  | .number _ => false
  | .label name => Text.upper name ∈ Operand.keywords

def Operand.wellFormed : Operand → Bool
  | .missing | .foreign _ => false
  | .register r | .indirect r => r.valid
  | .offset r l => r.valid && l.wellFormed
  | .memory l => l.wellFormed
  | .immediate l => l.wellFormed && !l.isKeyword
  | .push | .pop => true

def Datum.wellFormed : Datum → Bool
  | .missing | .foreign _ => false
  | .label name => Text.isName name
  | .word _ => true
  | .string t => Utf8.valid t

/-- A data declaration has at least one item. -/
def Instruction.wellFormed : Instruction → Bool
  | .missing | .foreign _ => false
  | .basic op b a => op.valid && (b.isDestination && b.wellFormed) && (a.isValue && a.wellFormed)
  | .special op a => op.valid && (a.isValue && a.wellFormed)
  | .label name => Text.isName name
  | .data items => !items.isEmpty && items.all Datum.wellFormed

/-! ## References -/

/-- The label that a literal refers to. -/
def Literal.references : Literal → List Text
  | .number _ => []
  | .label name => [name]

def Operand.references : Operand → List Text
  | .offset _ l | .memory l | .immediate l => l.references
  | _ => []

/-- The labels that an instruction refers to, the destination's first, as they are written. -/
def Instruction.references : Instruction → List Text
  | .basic _ b a => b.references ++ a.references
  | .special _ a => a.references
  | _ => []

end Dcpu16
