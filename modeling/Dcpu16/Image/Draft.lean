/-
Laying out a program in two passes. The first pass places the cells of every instruction, one
after the other, in a draft: a reference to a label takes a zero word and is remembered, a
definition records the address where it stands. The second pass puts the recorded addresses in
place of the zero words, so that a label can be used before it is defined.
-/
import Dcpu16.Image.Basic
import Dcpu16.Image.Cell

namespace Dcpu16

/-- What the assembler reports on the way. -/
inductive Event where
  | line (number : Nat) (text : Text)
  | redefined (label : Text) (address old : Word)
  | defined (label : Text) (address : Word)
  | patched (position : Nat) (address : Word) (label : Text)
deriving DecidableEq, Repr

def Event.message : Event → Text
  | .line n t => Message.format (Text.ofString "%v: %v") [.int n, .text t]
  | .redefined name address old =>
    Message.format (Text.ofString "label %v redefined, 0x%04x replaces 0x%04x")
      [.text name, .int address.toNat, .int old.toNat]
  | .defined name address =>
    Message.format (Text.ofString "label %v = 0x%04x") [.text name, .int address.toNat]
  | .patched position address name =>
    Message.format (Text.ofString "patch [0x%04x] = 0x%04x (%v)")
      [.int position, .int address.toNat, .text name]

/-- The log of a list of events. -/
def Event.log (events : List Event) : Text := events.flatMap fun e => Message.logLine e.message

/-- A zero word that waits for the address of a label: which label, where in the draft, and the
instruction that asks for it. -/
structure Reference where
  label : Text
  position : Nat
  instruction : Nat
deriving DecidableEq, Repr

/-- An image in the making. -/
structure Draft where
  words : Array Word := #[]
  pending : Array Reference := #[]
  labels : Table Word := {}
  spans : Array Span := #[]
  events : Array Event := #[]
deriving Repr

/-- A failure, with the draft as it was left. -/
structure Halt (ε : Type) where
  error : ε
  draft : Draft
deriving Repr

namespace Draft

/-! ## First pass -/

/-- Records the address of a label. It has to lie in memory, and a strict draft refuses a second
definition. -/
def define (strict : Bool) (d : Draft) (name : Text) : Except (Halt ImageError) Draft :=
  if memorySize ≤ d.words.size then .error ⟨.tooLarge, d⟩
  else
    let address := d.words.size.toUInt16
    match d.labels.get? name with
    | some old =>
      if strict then .error ⟨.labelDuplicate name, d⟩
      else .ok { d with
        labels := d.labels.insert name address
        events := (d.events.push (.redefined name address old)).push (.defined name address) }
    | none => .ok { d with
        labels := d.labels.insert name address
        events := d.events.push (.defined name address) }

/-- Places a cell of the instruction of number `n`. -/
def place (strict : Bool) (n : Nat) (d : Draft) : Cell → Except (Halt ImageError) Draft
  | .word w => .ok { d with words := d.words.push w }
  | .reference name => .ok { d with
      pending := d.pending.push ⟨name, d.words.size, n⟩
      words := d.words.push 0 }
  | .define name => d.define strict name
  | .fault e => .error ⟨e, d⟩

/-- Places cells one after the other. -/
def placeAll (strict : Bool) (n : Nat) (d : Draft) : List Cell → Except (Halt ImageError) Draft
  | [] => .ok d
  | c :: cs =>
    match d.place strict n c with
    | .ok d => d.placeAll strict n cs
    | .error e => .error e

/-- Adds the next instruction, whose number is the count of those before it. -/
def add (strict : Bool) (d : Draft) (i : Instruction) : Except (Halt InstructionError) Draft :=
  let n := d.spans.size
  let start := d.words.size
  match d.placeAll strict n i.cells with
  | .error e => .error ⟨⟨n, i, e.error⟩, e.draft⟩
  | .ok d =>
    if memorySize < d.words.size then .error ⟨⟨n, i, .tooLarge⟩, d⟩
    else .ok { d with spans := d.spans.push ⟨n, start, d.words.size - start⟩ }

/-- Adds instructions one after the other. -/
def addAll (strict : Bool) (d : Draft) : List Instruction → Except (Halt InstructionError) Draft
  | [] => .ok d
  | i :: is =>
    match d.add strict i with
    | .ok d => d.addAll strict is
    | .error e => .error e

/-! ## Second pass -/

/-- Puts the address of its label in place of a reference. -/
def patch (program : List Instruction) (d : Draft) (r : Reference) : Except (Halt InstructionError) Draft :=
  match d.labels.get? r.label with
  | none =>
    .error ⟨⟨r.instruction, (program[r.instruction]?).getD .missing, .labelMissing r.label⟩, d⟩
  | some address => .ok { d with
      words := d.words.setIfInBounds r.position address
      events := d.events.push (.patched r.position address r.label) }

/-- Patches references one after the other. -/
def patchAll (program : List Instruction) (d : Draft) : List Reference → Except (Halt InstructionError) Draft
  | [] => .ok d
  | r :: rs =>
    match d.patch program r with
    | .ok d => d.patchAll program rs
    | .error e => .error e

/-- The image of a finished draft. -/
def image (d : Draft) : Image := ⟨d.words.toList, d.labels, d.spans.toList⟩

end Draft

/-! ## Programs -/

/-- Lays out a program: both passes, up to the finished draft. -/
def layout (strict : Bool) (program : List Instruction) : Except (Halt InstructionError) Draft :=
  match Draft.addAll strict {} program with
  | .error e => .error e
  | .ok d => d.patchAll program d.pending.toList

/-- The image of a program. Strict refuses a label that is defined twice. -/
def generate (strict : Bool) (program : List Instruction) : Except InstructionError Image :=
  match layout strict program with
  | .ok d => .ok d.image
  | .error e => .error e.error

/-- What is reported while a program is laid out, whether or not it succeeds. -/
def layoutEvents (strict : Bool) (program : List Instruction) : List Event :=
  match layout strict program with
  | .ok d => d.events.toList
  | .error e => e.draft.events.toList

end Dcpu16
