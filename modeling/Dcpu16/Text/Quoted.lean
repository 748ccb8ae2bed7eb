/-
Texts between quotes, in two forms. In a literal of the source a backslash escapes the two
characters that would end or bend it and the control characters that have a short form; reading
knows a few more escapes and refuses every other one. A quoted text is printable throughout.
-/
import Dcpu16.Text.Numeral
import Dcpu16.Text.Printable

namespace Dcpu16.Text

/-! ## Literals of the source -/

/-- A byte as it is written inside double quotes. -/
def escapeByte (b : UInt8) : Text :=
  if b = byte '\\' then [byte '\\', byte '\\']
  else if b = byte '"' then [byte '\\', byte '"']
  else if b = byte '\n' then [byte '\\', byte 'n']
  else if b = byte '\t' then [byte '\\', byte 't']
  else if b = byte '\r' then [byte '\\', byte 'r']
  else if b = 0 then [byte '\\', byte '0']
  else [b]

/-- A text as it is written inside double quotes. -/
def escape (t : Text) : Text := t.flatMap escapeByte

/-- The byte that a backslash and `b` stand for. -/
def escaped? (b : UInt8) : Option UInt8 :=
  if b = byte 'n' then some 10
  else if b = byte 't' then some 9
  else if b = byte 'r' then some 13
  else if b = byte 'e' then some 27
  else if b = byte '0' then some 0
  else if b = byte '\\' ∨ b = byte '"' ∨ b = byte '\'' then some b
  else none

/-- Unescapes onto `acc`, newest first. -/
def unescapeOnto (acc : Text) : Text → Option Text
  | [] => some acc
  | 92 :: [] => none
  | 92 :: b :: t =>
    match escaped? b with
    | some x => unescapeOnto (x :: acc) t
    | none => none
  | b :: t => unescapeOnto (b :: acc) t

/-- The text that the body of a literal stands for, unless it ends in a backslash or holds an
unknown escape. -/
def unescape (t : Text) : Option Text := (unescapeOnto [] t).map List.reverse

/-! ## Printable texts

Between double quotes a printable character stands for itself; the quote and the backslash take a
backslash, the other characters and stray bytes are written by an escape. -/

/-- The letter of a control character that has an escape of its own. -/
def controlLetter? : Nat → Option UInt8
  | 7 => some (byte 'a')
  | 8 => some (byte 'b')
  | 9 => some (byte 't')
  | 10 => some (byte 'n')
  | 11 => some (byte 'v')
  | 12 => some (byte 'f')
  | 13 => some (byte 'r')
  | _ => none

/-- An escape: a backslash, its letter, and a number of a fixed count of hexadecimal digits. -/
def hexEscape (letter : Char) (width n : Nat) : Text :=
  byte '\\' :: byte letter :: Numeral.hex width n

/-- A character between quotes. -/
def quotedChar (c : Char) : Text :=
  if c = '"' ∨ c = '\\' then byte '\\' :: Utf8.encode c
  else if isPrintable c then Utf8.encode c
  else
    match controlLetter? c.toNat with
    | some letter => [byte '\\', letter]
    | none =>
      if c.toNat < 0x80 then hexEscape 'x' 2 c.toNat
      else if c.toNat < 0x10000 then hexEscape 'u' 4 c.toNat
      else hexEscape 'U' 8 c.toNat

/-- The body of a quoted text onto `acc`, newest first, after skipping `n` bytes that were
already written. -/
def quotedOnto (acc : Text) : Nat → Text → Text
  | _, [] => acc
  | n + 1, _ :: t => quotedOnto acc n t
  | 0, b :: t =>
    match Utf8.head? b t with
    | some (c, n) => quotedOnto ((quotedChar c).reverse ++ acc) n t
    | none => quotedOnto ((hexEscape 'x' 2 b.toNat).reverse ++ acc) 0 t

/-- A text in double quotes. -/
def quoted (t : Text) : Text := byte '"' :: (byte '"' :: quotedOnto [] 0 t).reverse

end Dcpu16.Text
