/-
Text as bytes, and UTF-8. Source lines, names and messages need not be valid UTF-8 and limits
count bytes, so a text is a list of bytes. Decoding is total: a byte that is part of no
character stands for itself as a stray byte.
-/
namespace Dcpu16

/-- A byte string. -/
abbrev Text := List UInt8

namespace Utf8

/-- The bytes of a character. -/
def encode (c : Char) : Text :=
  let n := c.toNat
  if n < 0x80 then [n.toUInt8]
  else if n < 0x800 then [(0xC0 + n / 64).toUInt8, (0x80 + n % 64).toUInt8]
  else if n < 0x10000 then
    [(0xE0 + n / 4096).toUInt8, (0x80 + n / 64 % 64).toUInt8, (0x80 + n % 64).toUInt8]
  else
    [(0xF0 + n / 262144).toUInt8, (0x80 + n / 4096 % 64).toUInt8, (0x80 + n / 64 % 64).toUInt8,
      (0x80 + n % 64).toUInt8]

/-- The six bits of a continuation byte. -/
def trail? (b : UInt8) : Option Nat :=
  if 0x80 ≤ b ∧ b < 0xC0 then some (b.toNat - 0x80) else none

/-- The character of code point `n`, refused below `least` (an overlong form), at a surrogate
and beyond the last code point. -/
def scalar? (least n : Nat) : Option Char :=
  if least ≤ n ∧ n.isValidChar then some (Char.ofNat n) else none

/-- The character that starts with byte `b` followed by `t`, and how many bytes of `t` belong
to it; `none` if `b` starts no character. -/
def head? (b : UInt8) (t : Text) : Option (Char × Nat) :=
  if b < 0x80 then (scalar? 0 b.toNat).map (·, 0)
  else if b < 0xC0 then none
  else if b < 0xE0 then
    match t with
    | x :: _ => do
      let i ← trail? x
      return (← scalar? 0x80 ((b.toNat - 0xC0) * 64 + i), 1)
    | _ => none
  else if b < 0xF0 then
    match t with
    | x :: y :: _ => do
      let i ← trail? x
      let j ← trail? y
      return (← scalar? 0x800 ((b.toNat - 0xE0) * 4096 + i * 64 + j), 2)
    | _ => none
  else if b < 0xF8 then
    match t with
    | x :: y :: z :: _ => do
      let i ← trail? x
      let j ← trail? y
      let k ← trail? z
      return (← scalar? 0x10000 ((b.toNat - 0xF0) * 262144 + i * 4096 + j * 64 + k), 3)
    | _ => none
  else none

/-- Decodes onto `acc`, newest first, after skipping `n` bytes that were already decoded. -/
def decodeOnto (acc : List (Option Char)) : Nat → Text → List (Option Char)
  | _, [] => acc
  | n + 1, _ :: t => decodeOnto acc n t
  | 0, b :: t =>
    match head? b t with
    | some (c, n) => decodeOnto (some c :: acc) n t
    | none => decodeOnto (none :: acc) 0 t

/-- The characters of a text in order, `none` for each stray byte. -/
def decode (t : Text) : List (Option Char) := (decodeOnto [] 0 t).reverse

/-- No stray bytes. -/
def valid (t : Text) : Bool := (decode t).all Option.isSome

/-- The code point of a decoded character; a stray byte counts as the replacement character. -/
def codePoint : Option Char → Nat
  | some c => c.toNat
  | none => 0xFFFD

end Utf8

namespace Text

/-- The UTF-8 bytes of a string. -/
def ofString (s : String) : Text := s.toList.flatMap Utf8.encode

/-- The byte of an ASCII character. -/
def byte (c : Char) : UInt8 := c.toNat.toUInt8

/-- Byte-wise lexicographic order. -/
def le : Text → Text → Bool
  | [], _ => true
  | _ :: _, [] => false
  | x :: xs, y :: ys => if x < y then true else if y < x then false else le xs ys

/-- The part before the first `b` and the part after it. -/
def cutAt? (b : UInt8) (t : Text) : Option (Text × Text) :=
  go [] t
where
  go (before : Text) : Text → Option (Text × Text)
    | [] => none
    | x :: t => if x = b then some (before.reverse, t) else go (x :: before) t

/-- The text between two marks that it must begin and end with, one after the other. -/
def between? (opening closing t : Text) : Option Text :=
  if opening.length + closing.length ≤ t.length ∧ opening.isPrefixOf t ∧ closing.isSuffixOf t then
    some ((t.drop opening.length).take (t.length - opening.length - closing.length))
  else none

/-- The texts with `sep` between each two. -/
def join (sep : Text) : List Text → Text
  | [] => []
  | t :: ts => t ++ ts.flatMap (sep ++ ·)

end Text

end Dcpu16
