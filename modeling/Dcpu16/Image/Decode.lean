/-
Decoding words back into instructions. A word that starts no instruction stands as data. A
canonical decoder refuses what the encoder never writes for a number, a small literal in a
trailing word, so that encoding its result gives the same words again; the other accepts it,
since the address of a label is always written in that form.
-/
import Dcpu16.Instruction.Encode

namespace Dcpu16

/-- An instruction found in an image: where it starts and the words it is made of. -/
structure Decoded where
  address : Nat
  words : List Word
  instruction : Instruction
deriving DecidableEq, Repr

namespace Decode

/-- The operand at a position of the instruction word. -/
inductive Position where
  | value
  | destination
deriving DecidableEq, Repr

/-- A memory or literal operand that needs the first of the words that follow, with the number
of words taken. -/
def withNext (f : Literal → Operand) : List Word → Option (Operand × Nat)
  | [] => none
  | w :: _ => some (f (.number w), 1)

/-- The general register of the three low bits of a code. -/
def general (code : Word) : Register := .general ⟨code.toNat % 8, Nat.mod_lt _ (by decide)⟩

/-- The operand of a field code and how many of the words that follow belong to it. -/
def operand (canonical : Bool) (position : Position) (code : Word) (rest : List Word) :
    Option (Operand × Nat) :=
  if code < 0x08 then some (.register (general code), 0)
  else if code < 0x10 then some (.indirect (general code), 0)
  else if code < 0x18 then withNext (.offset (general code)) rest
  else if code = 0x18 then
    match position with
    | .value => some (.pop, 0)
    | .destination => some (.push, 0)
  else if code = 0x19 then some (.indirect .sp, 0)
  else if code = 0x1a then withNext (.offset .sp) rest
  else if code = 0x1b then some (.register .sp, 0)
  else if code = 0x1c then some (.register .pc, 0)
  else if code = 0x1d then some (.register .ex, 0)
  else if code = 0x1e then withNext .memory rest
  else
    match position with
    | .destination => none
    | .value =>
      if code = 0x1f then
        match rest with
        | [] => none
        | w :: _ =>
          if canonical && w.inlineCode?.isSome then none else some (.immediate (.number w), 1)
      else (Word.inlineLiteral? code).map fun w => (.immediate (.number w), 0)

/-- The instruction that word `w` starts and how many of the words `rest` that follow belong to
it. The value is read first: its trailing word comes before that of the destination. -/
def instruction? (canonical : Bool) (w : Word) (rest : List Word) : Option (Instruction × Nat) := do
  let (a, m) ← operand canonical .value w.highField rest
  if w.lowField = 0 then
    let op ← SpecialOp.ofCode? w.middleField
    return (.special op a, m)
  else
    let op ← BasicOp.ofCode? w.lowField
    let (b, n) ← operand canonical .destination w.middleField (rest.drop m)
    return (.basic op b a, m + n)

/-- The instruction at word `w`, or that word as data. -/
def first (canonical : Bool) (w : Word) (rest : List Word) : Instruction × Nat :=
  (instruction? canonical w rest).getD (.data [.word w], 0)

/-- Decodes from `address` on, onto those before, newest first, after skipping `n` words that
belong to the instruction before. -/
def onto (canonical : Bool) (acc : List Decoded) (address : Nat) : Nat → List Word → List Decoded
  | _, [] => acc
  | n + 1, _ :: rest => onto canonical acc (address + 1) n rest
  | 0, w :: rest =>
    let (i, n) := first canonical w rest
    onto canonical (⟨address, w :: rest.take n, i⟩ :: acc) (address + 1) n rest

end Decode

/-- The instructions of an image, one after the other. -/
def decode (canonical : Bool) (words : List Word) : List Decoded :=
  (Decode.onto canonical [] 0 0 words).reverse

end Dcpu16
