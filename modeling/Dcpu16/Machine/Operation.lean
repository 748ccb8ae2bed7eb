/-
The operations of the machine. A basic operation has two operands and a five-bit code in the
lowest field; a special operation has one, and its code stands in the field of the other. A
tree may also hold a number that names no operation.
-/
import Dcpu16.Machine.Word
import Dcpu16.Text.Numeral

namespace Dcpu16

/-- An index beyond the end of a list, or before its start. -/
structure OutOfRange where
  index : Int
  size : Nat
deriving DecidableEq, Repr

/-- A negative index is out of range whatever the size. -/
def OutOfRange.message (e : OutOfRange) : Text :=
  Text.ofString "runtime error: index out of range [" ++ Numeral.decimal e.index ++ Text.ofString "]" ++
    if e.index < 0 then [] else Text.ofString " with length " ++ Numeral.decimal e.size

/-- The operations with two operands. -/
inductive BasicOp where
  | set | add | sub | mul | mli | div | dvi | mod | mdi
  | and | bor | xor | shr | asr | shl | ifb | ifc | ife
  | ifn | ifg | ifa | ifl | ifu | adx | sbx | sti | std
  | invalid (number : Int)
deriving DecidableEq, Repr

namespace BasicOp

/-- The operations in order; an operation is numbered by its place here. -/
def all : List BasicOp :=
  [.set, .add, .sub, .mul, .mli, .div, .dvi, .mod, .mdi, .and,
    .bor, .xor, .shr, .asr, .shl, .ifb, .ifc, .ife, .ifn, .ifg,
    .ifa, .ifl, .ifu, .adx, .sbx, .sti, .std]

/-- The operation of a number. -/
def ofNumber (n : Int) : BasicOp :=
  if n < 0 then .invalid n else (all[n.toNat]?).getD (.invalid n)

/-- The number of an operation. -/
def number : BasicOp → Int
  | .invalid n => n
  | op => (all.idxOf op : Nat)

/-- An operation of the machine. -/
def valid : BasicOp → Bool
  | .invalid _ => false
  | _ => true

/-- The mnemonic; a number without an operation is shown as such. -/
def name : BasicOp → Text
  | .set => Text.ofString "SET"
  | .add => Text.ofString "ADD"
  | .sub => Text.ofString "SUB"
  | .mul => Text.ofString "MUL"
  | .mli => Text.ofString "MLI"
  | .div => Text.ofString "DIV"
  | .dvi => Text.ofString "DVI"
  | .mod => Text.ofString "MOD"
  | .mdi => Text.ofString "MDI"
  | .and => Text.ofString "AND"
  | .bor => Text.ofString "BOR"
  | .xor => Text.ofString "XOR"
  | .shr => Text.ofString "SHR"
  | .asr => Text.ofString "ASR"
  | .shl => Text.ofString "SHL"
  | .ifb => Text.ofString "IFB"
  | .ifc => Text.ofString "IFC"
  | .ife => Text.ofString "IFE"
  | .ifn => Text.ofString "IFN"
  | .ifg => Text.ofString "IFG"
  | .ifa => Text.ofString "IFA"
  | .ifl => Text.ofString "IFL"
  | .ifu => Text.ofString "IFU"
  | .adx => Text.ofString "ADX"
  | .sbx => Text.ofString "SBX"
  | .sti => Text.ofString "STI"
  | .std => Text.ofString "STD"
  | .invalid n => Text.ofString "BasicOp(" ++ Numeral.decimal n ++ Text.ofString ")"

/-- The code of the lowest field, never zero. -/
def code? : BasicOp → Option Word
  | .set => some 0x01
  | .add => some 0x02
  | .sub => some 0x03
  | .mul => some 0x04
  | .mli => some 0x05
  | .div => some 0x06
  | .dvi => some 0x07
  | .mod => some 0x08
  | .mdi => some 0x09
  | .and => some 0x0a
  | .bor => some 0x0b
  | .xor => some 0x0c
  | .shr => some 0x0d
  | .asr => some 0x0e
  | .shl => some 0x0f
  | .ifb => some 0x10
  | .ifc => some 0x11
  | .ife => some 0x12
  | .ifn => some 0x13
  | .ifg => some 0x14
  | .ifa => some 0x15
  | .ifl => some 0x16
  | .ifu => some 0x17
  | .adx => some 0x1a
  | .sbx => some 0x1b
  | .sti => some 0x1e
  | .std => some 0x1f
  | .invalid _ => none

/-- The operation of a code. -/
def ofCode? (code : Word) : Option BasicOp := all.find? (·.code? == some code)

/-- The operation of an upper case mnemonic. -/
def ofName? (t : Text) : Option BasicOp := all.find? (·.name == t)

/-- The operations that skip the next instruction unless a condition holds. -/
def conditional (op : BasicOp) : Bool :=
  op ∈ [.ifb, .ifc, .ife, .ifn, .ifg, .ifa, .ifl, .ifu]

end BasicOp

/-- The operations with one operand. -/
inductive SpecialOp where
  | jsr | int | iag | ias | rfi | iaq | hwn | hwq | hwi
  | invalid (number : Int)
deriving DecidableEq, Repr

namespace SpecialOp

/-- The operations in order; an operation is numbered by its place here. -/
def all : List SpecialOp :=
  [.jsr, .int, .iag, .ias, .rfi, .iaq, .hwn, .hwq, .hwi]

/-- The operation of a number. -/
def ofNumber (n : Int) : SpecialOp :=
  if n < 0 then .invalid n else (all[n.toNat]?).getD (.invalid n)

/-- The number of an operation. -/
def number : SpecialOp → Int
  | .invalid n => n
  | op => (all.idxOf op : Nat)

/-- An operation of the machine. -/
def valid : SpecialOp → Bool
  | .invalid _ => false
  | _ => true

/-- The mnemonic; a number without an operation is shown as such. -/
def name : SpecialOp → Text
  | .jsr => Text.ofString "JSR"
  | .int => Text.ofString "INT"
  | .iag => Text.ofString "IAG"
  | .ias => Text.ofString "IAS"
  | .rfi => Text.ofString "RFI"
  | .iaq => Text.ofString "IAQ"
  | .hwn => Text.ofString "HWN"
  | .hwq => Text.ofString "HWQ"
  | .hwi => Text.ofString "HWI"
  | .invalid n => Text.ofString "SpecialOp(" ++ Numeral.decimal n ++ Text.ofString ")"

/-- The code of the middle field. -/
def code? : SpecialOp → Option Word
  | .jsr => some 0x01
  | .int => some 0x08
  | .iag => some 0x09
  | .ias => some 0x0a
  | .rfi => some 0x0b
  | .iaq => some 0x0c
  | .hwn => some 0x10
  | .hwq => some 0x11
  | .hwi => some 0x12
  | .invalid _ => none

/-- The operation of a code. -/
def ofCode? (code : Word) : Option SpecialOp := all.find? (·.code? == some code)

/-- The operation of an upper case mnemonic. -/
def ofName? (t : Text) : Option SpecialOp := all.find? (·.name == t)

end SpecialOp

end Dcpu16
