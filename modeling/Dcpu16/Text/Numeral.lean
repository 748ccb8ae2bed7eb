/-
Numerals: writing numbers in decimal and hexadecimal, with and without grouping by thousands,
and reading the integer literals of the source language.
-/
import Dcpu16.Text.Utf8

namespace Dcpu16.Numeral

/-! ## Writing -/

/-- The digit of value `d`, lower case beyond nine. -/
def digit (d : Nat) : UInt8 := if d < 10 then (48 + d).toUInt8 else (87 + d).toUInt8

/-- The digits of `n` in front of `acc`, for at most `fuel` steps. -/
def digitsOnto (base : Nat) : Nat → Nat → Text → Text
  | 0, _, acc => acc
  | fuel + 1, n, acc =>
    if n < base then digit n :: acc else digitsOnto base fuel (n / base) (digit (n % base) :: acc)

/-- The digits of `n`, most significant first. A number has fewer than `n + 1` digits. -/
def digits (base n : Nat) : Text := digitsOnto base (n + 1) n []

/-- The sign of a negative number in front of what `f` writes for its magnitude. -/
def signed (f : Nat → Text) : Int → Text
  | .ofNat n => f n
  | .negSucc n => Text.byte '-' :: f (n + 1)

/-- Plain decimal. -/
def decimal (n : Int) : Text := signed (digits 10) n

/-- Pads with zeros to at least `width` bytes. -/
def zeroPad (width : Nat) (t : Text) : Text := List.replicate (width - t.length) (Text.byte '0') ++ t

/-- Lower case hexadecimal of at least `width` digits. -/
def hex (width n : Nat) : Text := zeroPad width (digits 16 n)

/-- The four hexadecimal digits of a word. -/
def hexWord (w : UInt16) : Text :=
  [digit (w.toNat / 4096), digit (w.toNat / 256 % 16), digit (w.toNat / 16 % 16), digit (w.toNat % 16)]

/-- A comma after every third of the digits, which come least significant first. -/
def groupReversed : Text → Text
  | a :: b :: c :: d :: t => a :: b :: c :: Text.byte ',' :: groupReversed (d :: t)
  | t => t

/-- Decimal with commas between groups of three digits. -/
def grouped (n : Int) : Text := signed (fun m => (groupReversed (digits 10 m).reverse).reverse) n

/-! ## Reading -/

/-- The value of a digit in a base of up to thirty-six. -/
def digitValue? (b : UInt8) : Option Nat :=
  if Text.byte '0' ≤ b ∧ b ≤ Text.byte '9' then some (b.toNat - 48)
  else if Text.byte 'a' ≤ b ∧ b ≤ Text.byte 'z' then some (b.toNat - 87)
  else if Text.byte 'A' ≤ b ∧ b ≤ Text.byte 'Z' then some (b.toNat - 55)
  else none

/-- Reads digits, onto the value `n` of those before. An underscore stands between two digits
or between a base mark and a digit: `whole` says that one may come next, and that the numeral
may end here. -/
def readDigits (base : Nat) (whole : Bool) (n : Nat) : Text → Option Nat
  | [] => if whole then some n else none
  | b :: t =>
    if b = Text.byte '_' then
      if whole then readDigits base false n t else none
    else
      match digitValue? b with
      | some d => if d < base then readDigits base true (n * base + d) t else none
      | none => none

/-- The base that a mark after the leading zero stands for. -/
def baseOf? (mark : UInt8) : Option Nat :=
  if mark = Text.byte 'x' ∨ mark = Text.byte 'X' then some 16
  else if mark = Text.byte 'o' ∨ mark = Text.byte 'O' then some 8
  else if mark = Text.byte 'b' ∨ mark = Text.byte 'B' then some 2
  else none

/-- Reads a magnitude: decimal, marked by `0x`, `0o` or `0b`, or octal after a bare zero. -/
def readMagnitude : Text → Option Nat
  | 48 :: mark :: b :: t =>
    match baseOf? mark with
    | some base => readDigits base true 0 (b :: t)
    | none => readDigits 8 true 0 (mark :: b :: t)
  | 48 :: t => readDigits 8 true 0 t
  | t => readDigits 10 false 0 t

/-- Reads an integer literal with an optional sign, of the range of 32-bit integers. -/
def read (t : Text) : Option Int :=
  match t with
  | 43 :: t => inRange (readMagnitude t)
  | 45 :: t => inRange ((readMagnitude t).map (fun n => -n))
  | t => inRange (readMagnitude t)
where
  inRange (n : Option Int) : Option Int := n.filter fun n => -0x80000000 ≤ n ∧ n < 0x80000000

end Dcpu16.Numeral
