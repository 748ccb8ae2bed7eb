/-
Words of the machine: packing an instruction word from its fields, and what the codes of an
operand field say by themselves.
-/
namespace Dcpu16

/-- A word of the machine. -/
abbrev Word := UInt16

/-- The number of words that memory holds. -/
def memorySize : Nat := 0x10000

namespace Word

/-! ## Instruction words -/

/-- The word of a basic operation: `aaaaaabbbbbooooo`. -/
def packBasic (code b a : Word) : Word := (a <<< 10) ||| (b <<< 5) ||| code

/-- The word of a special operation: `aaaaaaooooo00000`. -/
def packSpecial (code a : Word) : Word := (a <<< 10) ||| (code <<< 5)

/-- The lowest field: the code of a basic operation, or zero. -/
def lowField (w : Word) : Word := w &&& 0x1f

/-- The middle field: the destination, or the code of a special operation. -/
def middleField (w : Word) : Word := (w >>> 5) &&& 0x1f

/-- The highest field: the value. -/
def highField (w : Word) : Word := w >>> 10

/-! ## Operand codes -/

/-- Push as a destination, pop as a value. -/
def stackCode : Word := 0x18

/-- The memory word that the next word points to. -/
def nextIndirectCode : Word := 0x1e

/-- The next word itself. -/
def nextLiteralCode : Word := 0x1f

/-- The codes that are followed by a word of their own. -/
def takesNext (code : Word) : Bool :=
  (0x10 ≤ code && code ≤ 0x17) || code == 0x1a || code == 0x1e || code == 0x1f

/-- The code that holds a small literal, which is `0xffff` or at most thirty. -/
def inlineCode? (literal : Word) : Option Word :=
  if literal ≤ 30 ∨ literal = 0xffff then some (literal + 0x21) else none

/-- The small literal that a code holds. -/
def inlineLiteral? (code : Word) : Option Word :=
  if 0x20 ≤ code ∧ code ≤ 0x3f then some (code - 0x21) else none

/-- A signed number as a word, if it is one in either reading. -/
def ofInt? (n : Int) : Option Word :=
  if -0x8000 ≤ n ∧ n ≤ 0xffff then some (UInt16.ofInt n) else none

end Word

end Dcpu16
