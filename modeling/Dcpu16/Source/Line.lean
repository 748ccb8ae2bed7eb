/-
Lines. A line holds any number of label definitions, then at most one instruction, data
declaration or equate definition. What a line means depends on the equates before it and on
nothing else.
-/
import Dcpu16.Source.Operand

namespace Dcpu16

namespace Equates

/-- An item of a data declaration: a string between quotes, a label after a colon, or a number. -/
def datum [Evaluator] (e : Equates) (item : Text) : Except LineError Datum :=
  match item with
  | 34 :: _ =>
    match (Text.between? (Text.ofString "\"") (Text.ofString "\"") item).bind Text.unescape with
    | none => .error .stringUnterminated
    | some t => if Utf8.valid t then .ok (.string t) else .error .stringEncoding
  | 58 :: name => if Text.isName name then .ok (.label name) else .error .labelInvalid
  | _ =>
    match e.literal item with
    | .ok (.number w) => .ok (.word w)
    | .ok (.label _) => .error .dataInvalid
    | .error err => .error err

/-- Items one after the other, onto those so far, newest first. -/
def dataOnto [Evaluator] (e : Equates) (acc : List Datum) : List Text → Except LineError (List Datum)
  | [] => .ok acc.reverse
  | item :: items =>
    match e.datum item with
    | .ok d => e.dataOnto (d :: acc) items
    | .error err => .error err

/-- A data declaration. -/
def data [Evaluator] (e : Equates) (operands : Text) : Except LineError Instruction :=
  if (Text.trim operands).isEmpty then .error .operandMissing
  else (e.dataOnto [] (Text.splitTop (Text.byte ',') operands)).map .data

/-- The operands of an instruction. -/
def arguments (operands : Text) : List Text :=
  if operands.isEmpty then [] else Text.splitTop (Text.byte ',') operands

/-- A basic instruction: the destination is read first. -/
def basic [Evaluator] (e : Equates) (op : BasicOp) : List Text → Except LineError Instruction
  | [b, a] =>
    match e.destinationOperand b with
    | .error err => .error err
    | .ok b => (e.valueOperand a).map (.basic op b)
  | _ :: _ :: _ :: _ => .error .operandExtra
  | _ => .error .operandMissing

/-- A special instruction. -/
def special [Evaluator] (e : Equates) (op : SpecialOp) : List Text → Except LineError Instruction
  | [a] => (e.valueOperand a).map (.special op)
  | _ :: _ :: _ => .error .operandExtra
  | [] => .error .operandMissing

/-- The instruction of an upper case mnemonic. -/
def instruction [Evaluator] (e : Equates) (mnemonic operands : Text) : Except LineError Instruction :=
  match BasicOp.ofName? mnemonic with
  | some op => e.basic op (arguments operands)
  | none =>
    match SpecialOp.ofName? mnemonic with
    | some op => e.special op (arguments operands)
    | none => .error .opcodeInvalid

/-- The text that is kept for a value: a number is computed now and kept in hexadecimal. -/
def settle [Evaluator] (e : Equates) (text : Text) : Text :=
  match e.value (e.expand text) with
  | .ok w => Text.ofString "0x" ++ Numeral.digits 16 w.toNat
  | .error _ => text

/-- The definition of an equate: a new name and a text. -/
def define [Evaluator] (e : Equates) (operands : Text) : Except LineError Equates :=
  let (name, rest) := Text.cutBlank operands
  let text := Text.trim rest
  if rest.isEmpty ∨ text.isEmpty ∨ !Text.isName name then .error .equateSyntax
  else if (e.get? name).isSome then .error .equateDuplicate
  else if text = name then .error .equateLoop
  else .ok (e.insert name (e.settle text))

end Equates

namespace Line

/-- The label that the first word of a line defines, `:name` or `name:`, and the rest. Nothing is
trimmed at the end, where a line has no white space. -/
def cutLabel? (line : Text) : Option (Text × Text) :=
  let (word, rest) := Text.cutBlank line
  if word.head? = some (Text.byte ':') then some (word.tail, Text.trimLeft rest)
  else if word.getLast? = some (Text.byte ':') then some (word.dropLast, Text.trimLeft rest)
  else none

/-- Splits off the labels at the front, onto those so far, newest first. Each takes at least one
byte, so `fuel` is the length of the line. -/
def cutLabels (labels : List Text) : Nat → Text → Except LineError (List Text × Text)
  | 0, line => .ok (labels.reverse, line)
  | fuel + 1, line =>
    match cutLabel? line with
    | none => .ok (labels.reverse, line)
    | some (name, rest) =>
      if Text.isName name then cutLabels (name :: labels) fuel rest else .error .labelInvalid

/-- What a line without labels gives: an instruction at most, and the equates after it. -/
def statement [Evaluator] (e : Equates) (line : Text) : Except LineError (List Instruction × Equates) :=
  if line.isEmpty then .ok ([], e)
  else
    let (word, rest) := Text.cutBlank line
    let mnemonic := Text.upper word
    let operands := Text.trim rest
    if mnemonic = Text.ofString ".EQU" then (e.define operands).map ([], ·)
    else if mnemonic = Text.ofString "DAT" ∨ mnemonic = Text.ofString ".DAT" then
      (e.data operands).map fun i => ([i], e)
    else (e.instruction mnemonic operands).map fun i => ([i], e)

/-- The instructions of a line, which is trimmed and without a comment, and the equates after it. -/
def parse [Evaluator] (e : Equates) (line : Text) : Except LineError (List Instruction × Equates) :=
  match cutLabels [] line.length line with
  | .error err => .error err
  | .ok (labels, rest) =>
    (statement e rest).map fun (is, e) => (labels.map Instruction.label ++ is, e)

/-- A line without its comment and the white space around it. -/
def clean (line : Text) : Text := Text.trim (Text.stripComment line)

end Line

end Dcpu16
