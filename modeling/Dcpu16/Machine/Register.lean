/-
The registers. The eight general ones can be used directly, as a pointer and as a pointer with
an offset; the stack pointer too, by codes of its own; the program counter and the overflow
register only directly. A tree may also hold a number that names no register.
-/
import Dcpu16.Machine.Word
import Dcpu16.Text.Numeral

namespace Dcpu16

/-- A register, or a number that names none. -/
inductive Register where
  | general (n : Fin 8)
  | sp | pc | ex
  | invalid (number : Int)
deriving DecidableEq, Repr

namespace Register

/-- The registers in order; a register is numbered by its place here. -/
def all : List Register :=
  [.general 0, .general 1, .general 2, .general 3, .general 4, .general 5, .general 6, .general 7,
    .sp, .pc, .ex]

/-- The register of a number. -/
def ofNumber (n : Int) : Register :=
  if n < 0 then .invalid n else (all[n.toNat]?).getD (.invalid n)

/-- The number of a register. -/
def number : Register → Int
  | .general n => n.val
  | .sp => 8
  | .pc => 9
  | .ex => 10
  | .invalid n => n

/-- A register of the machine. -/
def valid : Register → Bool
  | .invalid _ => false
  | _ => true

/-- One of the eight general registers. -/
def isGeneral : Register → Bool
  | .general _ => true
  | _ => false

/-- The name of a general register. -/
def generalName (n : Fin 8) : Char := (['A', 'B', 'C', 'X', 'Y', 'Z', 'I', 'J'].get n)

/-- The name; a number without a register is shown as such. -/
def name : Register → Text
  | .general n => [Text.byte (generalName n)]
  | .sp => Text.ofString "SP"
  | .pc => Text.ofString "PC"
  | .ex => Text.ofString "EX"
  | .invalid n => Text.ofString "Register(" ++ Numeral.decimal n ++ Text.ofString ")"

/-- The register of an upper case name. -/
def ofName? (t : Text) : Option Register := all.find? (·.name == t)

/-- The code of the register itself. -/
def code? : Register → Option Word
  | .general n => some n.val.toUInt16
  | .sp => some 0x1b
  | .pc => some 0x1c
  | .ex => some 0x1d
  | .invalid _ => none

/-- The code of the memory word that the register points to. -/
def indirectCode? : Register → Option Word
  | .general n => some (0x08 + n.val.toUInt16)
  | .sp => some 0x19
  | _ => none

/-- The code of the memory word that the register plus the next word points to. -/
def offsetCode? : Register → Option Word
  | .general n => some (0x10 + n.val.toUInt16)
  | .sp => some 0x1a
  | _ => none

end Register

end Dcpu16
