/-
How a line is cut. White space is known by its bytes, and a text is trimmed and cut at whole
characters; mnemonics, registers and keywords are compared in upper case. A left-to-right scan
decides where quotes, brackets and escapes stand: comments are cut and lists are split only where
it is outside quotes, and a list is split only outside brackets too.
-/
import Dcpu16.Text.Utf8

namespace Dcpu16

namespace Text

/-! ## White space

The 25 characters of the Unicode property. A stray byte is never white space. -/

/-- The white space characters. -/
def blanks : List Char :=
  [' ', '\t', '\n', '\x0b', '\x0c', '\r', '\u0085', '\u00a0',
    '\u1680', '\u2000', '\u2001', '\u2002', '\u2003', '\u2004', '\u2005', '\u2006',
    '\u2007', '\u2008', '\u2009', '\u200a', '\u2028', '\u2029', '\u202f', '\u205f',
    '\u3000']

/-- The bytes of each white space character. -/
def blankForms : List Text := blanks.map Utf8.encode

/-- The same bytes read backwards. -/
def blankFormsReversed : List Text := blankForms.map List.reverse

/-- The length of the first of `forms` that `t` begins with, zero if there is none. -/
def formLength (forms : List Text) (t : Text) : Nat :=
  match forms.find? (·.isPrefixOf t) with
  | some f => f.length
  | none => 0

/-- Drops from the front all it can of `forms`, after `n` bytes that are already to be dropped. -/
def dropForms (forms : List Text) : Nat → Text → Text
  | _, [] => []
  | n + 1, _ :: t => dropForms forms n t
  | 0, b :: t =>
    match formLength forms (b :: t) with
    | 0 => b :: t
    | n + 1 => dropForms forms n t

/-- Without the white space at the front. -/
def trimLeft (t : Text) : Text := dropForms blankForms 0 t

/-- Without the white space at the end. -/
def trimRight (t : Text) : Text := (dropForms blankFormsReversed 0 t.reverse).reverse

/-- Without the white space at both ends. -/
def trim (t : Text) : Text := trimRight (trimLeft t)

/-- The word before the first white space, and the rest from there on. -/
def cutBlank (t : Text) : Text × Text :=
  go [] t
where
  go (word : Text) : Text → Text × Text
    | [] => (word.reverse, [])
    | b :: t => if formLength blankForms (b :: t) = 0 then go (b :: word) t else (word.reverse, b :: t)

/-! ## Case and names

All names that are compared in upper case are ASCII, so of the mapping only what reaches an ASCII
letter matters: the ASCII letters themselves, the dotless i and the long s. -/

/-- The upper case of an ASCII byte. -/
def upperByte (b : UInt8) : UInt8 :=
  if byte 'a' ≤ b ∧ b ≤ byte 'z' then b - 32 else b

/-- Upper case onto `acc`, newest first. U+0131 is written `C4 B1` and U+017F `C5 BF`. -/
def upperOnto (acc : Text) : Text → Text
  | 0xC4 :: 0xB1 :: t => upperOnto (byte 'I' :: acc) t
  | 0xC5 :: 0xBF :: t => upperOnto (byte 'S' :: acc) t
  | b :: t => upperOnto (upperByte b :: acc) t
  | [] => acc

/-- The text in upper case, as far as ASCII letters result. -/
def upper (t : Text) : Text := (upperOnto [] t).reverse

/-- An ASCII letter, an underscore or a dot: what a name may start with. -/
def isNameStart (b : UInt8) : Bool :=
  (byte 'A' ≤ b && b ≤ byte 'Z') || (byte 'a' ≤ b && b ≤ byte 'z') || b == byte '_' || b == byte '.'

/-- What a name may go on with. -/
def isNameByte (b : UInt8) : Bool := isNameStart b || (byte '0' ≤ b && b ≤ byte '9')

/-- Label and equate names: a letter, underscore or dot, then also digits. -/
def isName : Text → Bool
  | [] => false
  | b :: t => isNameStart b && t.all isNameByte

end Text

/-! ## Quotes, brackets and escapes

The scan is by bytes and knows nothing of characters. -/

/-- Where a scan stands: the quote mark that is open, whether the next byte is escaped, and how
many brackets are open (negative if more were closed). -/
structure Scan where
  quote : Option UInt8 := none
  escaped : Bool := false
  depth : Int := 0
deriving DecidableEq, Repr

namespace Scan

/-- A quote mark. -/
def isQuote (b : UInt8) : Bool := b == Text.byte '"' || b == Text.byte '\''

/-- An opening bracket or parenthesis. -/
def isOpening (b : UInt8) : Bool := b == Text.byte '(' || b == Text.byte '['

/-- A closing bracket or parenthesis. -/
def isClosing (b : UInt8) : Bool := b == Text.byte ')' || b == Text.byte ']'

/-- One byte on. Escapes count inside quotes only. -/
def step (s : Scan) (b : UInt8) : Scan :=
  if s.escaped then { s with escaped := false }
  else
    match s.quote with
    | some q =>
      if b = Text.byte '\\' then { s with escaped := true }
      else if b = q then { s with quote := none }
      else s
    | none =>
      if isQuote b then { s with quote := some b }
      else if isOpening b then { s with depth := s.depth + 1 }
      else if isClosing b then { s with depth := s.depth - 1 }
      else s

/-- Outside quotes. -/
def outside (s : Scan) : Bool := s.quote.isNone && !s.escaped

/-- Outside quotes, no bracket open. -/
def top (s : Scan) : Bool := s.outside && s.depth == 0

end Scan

namespace Text

/-- The line up to a `;` outside quotes. -/
def stripComment (t : Text) : Text :=
  go {} [] t
where
  go (s : Scan) (kept : Text) : Text → Text
    | [] => kept.reverse
    | b :: t => if s.outside && b == byte ';' then kept.reverse else go (s.step b) (b :: kept) t

/-- The parts between the separators that stand outside quotes and brackets, each trimmed. A
quote mark or bracket never separates. -/
def splitTop (sep : UInt8) (t : Text) : List Text :=
  go {} [] [] t
where
  go (s : Scan) (part : Text) (parts : List Text) : Text → List Text
    | [] => (trim part.reverse :: parts).reverse
    | b :: t =>
      if s.top && b == sep && s.step b == s then go s [] (trim part.reverse :: parts) t
      else go (s.step b) (b :: part) parts t

end Text

end Dcpu16
