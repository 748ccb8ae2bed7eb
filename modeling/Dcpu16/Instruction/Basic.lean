/-
The instruction tree. A tree handed in from outside may hold missing nodes, nodes of a foreign
kind and numbers that name no register or operation; they are part of the types here, can be
rendered, and are refused when they are encoded. A tree has a text, which is that of the source,
and a shape, which shows every node.
-/
import Dcpu16.Machine.Register
import Dcpu16.Machine.Operation
import Dcpu16.Text.Quoted

namespace Dcpu16

/-- A literal: a number, or the address of a label. -/
inductive Literal where
  | number (value : Word)
  | label (name : Text)
deriving DecidableEq, Repr

/-- An operand. An immediate and a pop are values only, a push is a destination only. -/
inductive Operand where
  | missing
  | register (r : Register)
  | indirect (r : Register)
  | offset (r : Register) (literal : Literal)
  | memory (literal : Literal)
  | immediate (literal : Literal)
  | push
  | pop
  | foreign (r : Register)
deriving DecidableEq, Repr

/-- An item of a data declaration. A label takes no space. -/
inductive Datum where
  | missing
  | label (name : Text)
  | word (value : Word)
  | string (text : Text)
  | foreign (value : Word)
deriving DecidableEq, Repr

/-- An instruction, a label definition or a data declaration. In a basic instruction the
destination `b` is written before the value `a`. -/
inductive Instruction where
  | missing
  | basic (op : BasicOp) (b a : Operand)
  | special (op : SpecialOp) (a : Operand)
  | label (name : Text)
  | data (items : List Datum)
  | foreign (name : Text)
deriving DecidableEq, Repr

/-- The words of a string: one for each character, cut to sixteen bits. -/
def Datum.stringWords (t : Text) : List Word :=
  (Utf8.decode t).map fun c => (Utf8.codePoint c).toUInt16

/-- What an operand can stand for as a value. -/
def Operand.isValue : Operand → Bool
  | .missing | .push | .foreign _ => false
  | _ => true

/-- What an operand can stand for as a destination. -/
def Operand.isDestination : Operand → Bool
  | .missing | .pop | .immediate _ | .foreign _ => false
  | _ => true

/-! ## Text

A well-formed instruction reads back as itself; what is missing or foreign is shown but does not
read back. -/

/-- How a missing node is shown. -/
def missingText : Text := Text.ofString "<nil>"

/-- A word in hexadecimal, always of four digits. -/
def Word.render (w : Word) : Text := Text.ofString "0x" ++ Numeral.hexWord w

def Literal.render : Literal → Text
  | .number w => w.render
  | .label name => name

def Operand.render : Operand → Text
  | .missing => missingText
  | .register r | .foreign r => r.name
  | .indirect r => Text.ofString "[" ++ r.name ++ Text.ofString "]"
  | .offset r l => Text.ofString "[" ++ r.name ++ Text.ofString " + " ++ l.render ++ Text.ofString "]"
  | .memory l => Text.ofString "[" ++ l.render ++ Text.ofString "]"
  | .immediate l => l.render
  | .push => Text.ofString "PUSH"
  | .pop => Text.ofString "POP"

def Datum.render : Datum → Text
  | .missing => missingText
  | .label name => Text.byte ':' :: name
  | .word w | .foreign w => w.render
  | .string t => Text.byte '"' :: (Text.escape t ++ [Text.byte '"'])

def Instruction.render : Instruction → Text
  | .missing => missingText
  | .basic op b a => op.name ++ Text.ofString " " ++ b.render ++ Text.ofString ", " ++ a.render
  | .special op a => op.name ++ Text.ofString " " ++ a.render
  | .label name | .foreign name => Text.byte ':' :: name
  | .data items => Text.ofString "DAT " ++ Text.join (Text.ofString ", ") (items.map Datum.render)

/-! ## Shape

Every node with its kind and its named fields, registers and operations by number, words in
hexadecimal, texts in quotes. -/

namespace Shape

/-- A node: its kind, and its fields between braces. -/
def node (kind : String) (fields : List Text) : Text :=
  Text.ofString kind ++ Text.ofString "\x7b" ++ Text.join (Text.ofString ", ") fields ++
    Text.ofString "\x7d"

/-- A field behind its name. -/
def entry (name : String) (value : Text) : Text := Text.ofString name ++ Text.byte ':' :: value

/-- A word: hexadecimal without leading zeros. -/
def hexNumber (w : Word) : Text := Text.ofString "0x" ++ Numeral.hex 1 w.toNat

/-- A node that is not there. -/
def absent (kind : String) : Text := Text.ofString kind ++ Text.ofString "(nil)"

end Shape

open Shape

def Register.shape (r : Register) : Text := Numeral.decimal r.number

def Literal.shape : Literal → Text
  | .number w => node "ast.Literal" [entry "Label" (Text.quoted []), entry "Number" (hexNumber w)]
  | .label name => node "ast.Literal" [entry "Label" (Text.quoted name), entry "Number" (hexNumber 0)]

/-- The shape of an operand; `role` names what it stands for where it is absent. -/
def Operand.shape (role : String) : Operand → Text
  | .missing => absent role
  | .register r => node "ast.Register" [entry "Reg" r.shape]
  | .indirect r => node "ast.IndirectRegister" [entry "Reg" r.shape]
  | .offset r l => node "ast.IndirectOffset" [entry "Reg" r.shape, entry "Offset" l.shape]
  | .memory l => node "ast.IndirectLiteral" [entry "Address" l.shape]
  | .immediate l => node "ast.Immediate" [entry "Lit" l.shape]
  | .push => node "ast.Push" []
  | .pop => node "ast.Pop" []
  | .foreign r => node "foreign" [entry "Reg" r.shape]

def Datum.shape : Datum → Text
  | .missing => absent "ast.Datum"
  | .label name => node "ast.DataLabel" [entry "Name" (Text.quoted name)]
  | .word w => node "ast.DataWord" [entry "Word" (hexNumber w)]
  | .string t => node "ast.DataString" [entry "Text" (Text.quoted t)]
  | .foreign w => node "foreign" [entry "Word" (hexNumber w)]

def Instruction.shape : Instruction → Text
  | .missing => Text.ofString "<nil>"
  | .basic op b a =>
    node "ast.Basic" [entry "Op" (Numeral.decimal op.number), entry "B" (b.shape "ast.Destination"),
      entry "A" (a.shape "ast.Value")]
  | .special op a =>
    node "ast.Special" [entry "Op" (Numeral.decimal op.number), entry "A" (a.shape "ast.Value")]
  | .label name => node "ast.Label" [entry "Name" (Text.quoted name)]
  | .data items =>
    node "ast.Data" [entry "Data" (node "[]ast.Datum" (items.map Datum.shape))]
  | .foreign name => node "foreign" [entry "Name" (Text.quoted name)]

end Dcpu16
