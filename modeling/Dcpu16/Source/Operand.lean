/-
Equates, literals and operands. An equate is a name that stands for a text; a word is replaced by
its equate once, and the replacement is not looked at again. What an expression computes is left
to an evaluator. Among the operands a push, a pop and the two short forms for the top of the stack
have names of their own; an address stands in brackets and may add a register and a literal in
either order, or take a number from a register.
-/
import Dcpu16.Image.Basic
import Dcpu16.Source.Error
import Dcpu16.Text.Scan

namespace Dcpu16

/-- The texts that names stand for. -/
abbrev Equates := Table Text

/-- What a `$(...)` computes: the word of an expression in which some names stand for numbers, if it
has one. A source can be read with any evaluator. -/
class Evaluator where
  evaluate (numbers : Text → Option Int) (expression : Text) : Option Word

namespace Equates

/-! ## Literals -/

/-- The text that a word stands for. -/
def expand (e : Equates) (word : Text) : Text := (e.get? word).getD word

/-- The register that a word names, directly or through an equate. -/
def register? (e : Equates) (word : Text) : Option Register :=
  Register.ofName? (Text.upper (e.expand word))

/-- The number that a name stands for in an expression. -/
def number? (e : Equates) (name : Text) : Option Int := (e.get? name).bind Numeral.read

/-- The single character of a character literal, as a word. -/
def character? (body : Text) : Option Word :=
  match (Text.unescape body).map Utf8.decode with
  | some [c] => some (Utf8.codePoint c).toUInt16
  | _ => none

/-- The value of a number, a character between quotes or an expression. -/
def value [Evaluator] (e : Equates) (word : Text) : Except LineError Word :=
  match Text.between? (Text.ofString "$(") (Text.ofString ")") word with
  | some expression =>
    match Evaluator.evaluate e.number? expression with
    | some w => .ok w
    | none => .error (.notExpression expression)
  | none =>
    match Text.between? (Text.ofString "'") (Text.ofString "'") word with
    | some (b :: body) =>
      match character? (b :: body) with
      | some w => .ok w
      | none => .error (.notCharacter word)
    | _ =>
      match (Numeral.read word).bind Word.ofInt? with
      | some w => .ok w
      | none => .error (.notNumber word)

/-- A literal: a value, or a name that is no register's and so refers to a label. -/
def literal [Evaluator] (e : Equates) (text : Text) : Except LineError Literal :=
  let word := e.expand (Text.trim text)
  if word.isEmpty then .error .operandMissing
  else if Text.isName word then
    if (Register.ofName? (Text.upper word)).isSome then .error (.notValue word) else .ok (.label word)
  else (e.value word).map .number

/-! ## Operands -/

/-- The parts of an address, and whether the second is to be taken off. Only after a register is
a minus sign an operator. -/
def addressParts (e : Equates) (inner : Text) : List Text × Bool :=
  match Text.splitTop (Text.byte '+') inner with
  | [part] =>
    match Text.cutAt? (Text.byte '-') inner with
    | some (head, tail) =>
      let head := Text.trim head
      if !head.isEmpty && (e.register? head).isSome then ([head, Text.trim tail], true) else ([part], false)
    | none => ([part], false)
  | parts => (parts, false)

/-- A register and the text of its offset, in either order. -/
def registerAndOther? (e : Equates) (x y : Text) : Option (Register × Text) :=
  match e.register? x with
  | some r => some (r, y)
  | none => (e.register? y).map (·, x)

/-- The operand of the inside of brackets. -/
def indirection [Evaluator] (e : Equates) (inner : Text) : Except LineError Operand :=
  match e.addressParts inner with
  | ([part], _) =>
    match e.register? part with
    | some r => .ok (.indirect r)
    | none => (e.literal part).map .memory
  | ([x, y], negate) =>
    match e.registerAndOther? x y with
    | none => .error .indirectionInvalid
    | some (r, other) =>
      match e.literal other, negate with
      | .error err, _ => .error err
      | .ok l, false => .ok (.offset r l)
      | .ok (.number w), true => .ok (.offset r (.number (-w)))
      | .ok (.label _), true => .error .indirectionInvalid
  | _ => .error .indirectionInvalid

/-- The operand of a text in either position. -/
def operand [Evaluator] (e : Equates) (written : Text) : Except LineError Operand :=
  let word := Text.trim written
  let text := e.expand word
  let upper := Text.upper text
  let (head, tail) := Text.cutBlank text
  if text.isEmpty then .error .operandMissing
  else if upper = Text.ofString "PUSH" ∨ upper = Text.ofString "[--SP]" then .ok .push
  else if upper = Text.ofString "POP" ∨ upper = Text.ofString "[SP++]" then .ok .pop
  else if upper = Text.ofString "PEEK" then .ok (.indirect .sp)
  else if Text.upper head = Text.ofString "PICK" ∧ !tail.isEmpty then (e.literal tail).map (.offset .sp)
  else
    match Text.between? (Text.ofString "[") (Text.ofString "]") text with
    | some inner => e.indirection inner
    | none =>
      match e.register? word with
      | some r => .ok (.register r)
      | none => (e.literal word).map .immediate

/-- An operand that can be a value. -/
def valueOperand [Evaluator] (e : Equates) (text : Text) : Except LineError Operand :=
  match e.operand text with
  | .ok o => if o.isValue then .ok o else .error .valueInvalid
  | .error err => .error err

/-- An operand that can be a destination. -/
def destinationOperand [Evaluator] (e : Equates) (text : Text) : Except LineError Operand :=
  match e.operand text with
  | .ok o => if o.isDestination then .ok o else .error .destinationInvalid
  | .error err => .error err

end Equates

end Dcpu16
