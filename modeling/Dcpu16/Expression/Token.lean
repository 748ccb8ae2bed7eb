/-
Tokens of the expression language. A text is read left to right; a NUL byte ends it, a line
break is a token unless a bracket is open, and a line does not start with blanks. Names may hold
letters of any script.
-/
import Dcpu16.Expression.Number
import Dcpu16.Text.Letter
import Dcpu16.Text.Numeral

namespace Dcpu16.Expression

/-- A token. Words with a meaning of their own and punctuation are marks. -/
inductive Token where
  | name (t : Text)
  | int (n : Nat)
  | float (x : Float)
  | string (t : Text)
  | mark (s : String)
  | newline

namespace Token

/-- The words that are no names. -/
def reserved : List String :=
  ["and", "break", "continue", "def", "elif", "else", "for", "if", "in", "lambda", "load", "not", "or",
    "pass", "return", "while", "as", "async", "await", "class", "del", "except", "finally",
    "from", "global", "import", "is", "nonlocal", "raise", "try", "with", "yield"]

/-- The punctuation marks, those of more bytes first. -/
def marks : List String :=
  ["<<=", ">>=", "//=", "==", "!=", "<=", ">=", "<<", ">>", "//", "**", "+=", "-=", "*=", "/=", "%=", "&=",
    "|=", "^=", "=", "<", ">", "+", "-", "*", "/", "%", "&", "|", "^", "~", ",", ";", ":", "(", ")", "[", "]"]

/-! ## Names -/

/-- The length of the name character at the front, zero if there is none. -/
def nameLength (start : Bool) : Text → Nat
  | [] => 0
  | b :: t =>
    if b == Text.byte '_' || (!start && Text.byte '0' ≤ b && b ≤ Text.byte '9') then 1
    else
      match Utf8.head? b t with
      | some (c, n) => if Text.isLetter c then n + 1 else 0
      | none => 0

/-- Splits off name characters, onto the name so far, newest first, after copying `n` bytes that
are already known to be part of it. -/
def scanName (acc : Text) : Nat → Text → Text × Text
  | _, [] => (acc.reverse, [])
  | n + 1, b :: t => scanName (b :: acc) n t
  | 0, b :: t =>
    match nameLength false (b :: t) with
    | 0 => (acc.reverse, b :: t)
    | n + 1 => scanName (b :: acc) n t

/-! ## Numbers -/

/-- An ASCII digit. -/
def isDigit (b : UInt8) : Bool := Text.byte '0' ≤ b && b ≤ Text.byte '9'

/-- A digit of a base. -/
def isDigitOf (base : Nat) (b : UInt8) : Bool :=
  match Numeral.digitValue? b with
  | some d => d < base
  | none => false

/-- The value of digits. -/
def digitsValue (base : Nat) (t : Text) : Nat :=
  t.foldl (fun n b => n * base + (Numeral.digitValue? b).getD 0) 0

/-- An integer marked by its base. Octal and binary integers have at most 63 bits. -/
def scanMarked (base : Nat) (t : Text) : Option (Token × Text) :=
  let ds := t.takeWhile (isDigitOf base)
  let n := digitsValue base ds
  if ds.isEmpty ∨ (base ≠ 16 ∧ twoPow 63 ≤ n) then none else some (.int n, t.dropWhile (isDigitOf base))

/-- The exponent after its mark: an optional sign and at least one digit. -/
def scanExponent (t : Text) : Option (Int × Text) :=
  let (negative, t) :=
    match t with
    | 43 :: t => (false, t)
    | 45 :: t => (true, t)
    | t => (false, t)
  let ds := t.takeWhile isDigit
  let n : Int := digitsValue 10 ds
  if ds.isEmpty then none else some (if negative then -n else n, t.dropWhile isDigit)

/-- A float of the digits before and after its point, with what follows. -/
def scanFloat (whole fraction : Text) (t : Text) : Option (Token × Text) := do
  let (e, t) ←
    match t with
    | b :: t' => if b == Text.byte 'e' || b == Text.byte 'E' then scanExponent t' else some (0, t)
    | [] => some (0, t)
  let ds := (whole ++ fraction).dropWhile (· == 48)
  let x ← floatOfDecimal? (digitsValue 10 ds) ds.length (e - fraction.length)
  return (.float x, t)

/-- A decimal number: a float if a point or an exponent follows its digits, else an integer, which
starts with zero only if it is zero. -/
def scanDecimal (t : Text) : Option (Token × Text) :=
  let whole := t.takeWhile isDigit
  match t.dropWhile isDigit with
  | 46 :: t => scanFloat whole (t.takeWhile isDigit) (t.dropWhile isDigit)
  | t =>
    if t.head? == some (Text.byte 'e') || t.head? == some (Text.byte 'E') then scanFloat whole [] t
    else if whole.head? == some 48 && !whole.all (· == 48) then none
    else some (.int (digitsValue 10 whole), t)

/-- A number. -/
def scanNumber (t : Text) : Option (Token × Text) :=
  match t with
  | 48 :: m :: rest =>
    match Numeral.baseOf? m with
    | some base => scanMarked base rest
    | none => scanDecimal t
  | t => scanDecimal t

/-! ## Strings -/

/-- The body of a string up to its closing quotes, `size` of them in a row, and the rest. A line
break is allowed between three quotes only. Line breaks become line feeds and stray bytes the
replacement character. Onto the body so far, newest first; `seen` quotes came last, and the next
byte is `escaped`; `skip` more bytes belong to the character before. -/
def scanString (quote : UInt8) (size : Nat) (acc : Text) (seen : Nat) (escaped : Bool) :
    Nat → Text → Option (Text × Text)
  | _, [] => none
  | skip + 1, b :: t => scanString quote size (b :: acc) 0 false skip t
  | 0, b :: t =>
    if b == 13 && t.head? == some 10 then scanString quote size acc 0 escaped 0 t
    else
      let b := if b == 13 then 10 else b
      if escaped then
        match Utf8.head? b t with
        | some (_, n) => scanString quote size (b :: acc) 0 false n t
        | none => scanString quote size (0xBD :: 0xBF :: 0xEF :: acc) 0 false 0 t
      else if b == quote then
        if seen + 1 = size then some ((acc.drop seen).reverse, t)
        else scanString quote size (b :: acc) (seen + 1) false 0 t
      else if b == 10 && size == 1 then none
      else if b == Text.byte '\\' then scanString quote size (b :: acc) 0 true 0 t
      else
        match Utf8.head? b t with
        | some (_, n) => scanString quote size (b :: acc) 0 false n t
        | none => scanString quote size (0xBD :: 0xBF :: 0xEF :: acc) 0 false 0 t

/-- The byte of a short escape. -/
def shortEscape? (b : UInt8) : Option UInt8 :=
  (["a\x07", "b\x08", "f\x0c", "n\n", "r\x0d", "t\t", "v\x0b", "\\\\", "''", "\"\""].map Text.ofString).findSome?
    fun
      | [x, y] => if x == b then some y else none
      | _ => none

/-- The character of exactly `n` hexadecimal digits, and the rest. -/
def codeEscape (n : Nat) (t : Text) : Option (Char × Text) :=
  let ds := t.take n
  if ds.length = n ∧ ds.all (isDigitOf 16) then
    (Utf8.scalar? 0 (digitsValue 16 ds)).map (·, t.drop n)
  else none

/-- What the escape after a backslash stands for, and the rest: a dropped line break, a short
escape, an ASCII character in octal or hexadecimal, or a character by its code point. -/
def escape (t : Text) : Option (Text × Text) :=
  match t with
  | [] => none
  | 10 :: t => some ([], t)
  | 120 :: t => do
    let (c, t) ← codeEscape 2 t
    if c.toNat < 128 then return (Utf8.encode c, t) else none
  | 117 :: t => (codeEscape 4 t).map fun (c, t) => (Utf8.encode c, t)
  | 85 :: t => (codeEscape 8 t).map fun (c, t) => (Utf8.encode c, t)
  | b :: t' =>
    if isDigitOf 8 b then
      let ds := (t.take 3).takeWhile (isDigitOf 8)
      let n := digitsValue 8 ds
      if n < 128 then some ([n.toUInt8], t.drop ds.length) else none
    else (shortEscape? b).map fun x => ([x], t')

/-- The text that the body of a string stands for. Each escape takes at least one byte, so `fuel`
is the length of the body. -/
def unescape (acc : Text) : Nat → Text → Option Text
  | _, [] => some acc.reverse
  | 0, _ :: _ => none
  | fuel + 1, b :: t =>
    if b == Text.byte '\\' then
      match escape t with
      | some (x, t) => unescape (x.reverse ++ acc) fuel t
      | none => none
    else unescape (b :: acc) fuel t

/-- A string from its opening quote on; a raw one has no escapes. -/
def scanQuoted (raw : Bool) (t : Text) : Option (Token × Text) := do
  let q :: rest := t | none
  let (body, rest) ←
    if [q, q].isPrefixOf rest then scanString q 3 [] 0 false 0 (rest.drop 2)
    else scanString q 1 [] 0 false 0 rest
  if raw then return (.string body, rest)
  return (.string (← unescape [] body.length body), rest)

/-! ## The whole text -/

/-- A quote mark. -/
def isQuote (b : UInt8) : Bool := b == Text.byte '"' || b == Text.byte '\''

/-- The token at the front, which is neither a blank nor a line break. -/
def next (t : Text) : Option (Token × Text) :=
  match t with
  | [] => none
  | b :: rest =>
    if isQuote b then scanQuoted false t
    else if b == Text.byte 'r' && rest.head?.any isQuote then scanQuoted true rest
    else if b == Text.byte 'b' && rest.head?.any isQuote then none
    else if nameLength true t ≠ 0 then
      let (word, rest) := scanName [] 0 t
      match reserved.find? (Text.ofString · == word) with
      | some w => some (.mark w, rest)
      | none => some (.name word, rest)
    else if isDigit b || (b == Text.byte '.' && rest.head?.any isDigit) then scanNumber t
    else if b == Text.byte '.' then some (.mark ".", rest)
    else (marks.find? fun m => (Text.ofString m).isPrefixOf t).map fun m => (.mark m, t.drop m.length)

/-- How a token changes the number of open brackets; nothing closes what is not open. -/
def nesting (depth : Nat) : Token → Option Nat
  | .mark "(" | .mark "[" => some (depth + 1)
  | .mark ")" | .mark "]" => if depth = 0 then none else some (depth - 1)
  | _ => some depth

/-- A space or a tab. -/
def isBlank (b : UInt8) : Bool := b == 32 || b == 9

/-- The bytes of the line break at the front, zero if there is none. -/
def breakLength : Text → Nat
  | 13 :: 10 :: _ => 2
  | 13 :: _ | 10 :: _ => 1
  | _ => 0

/-- The tokens of a text, onto those so far, newest first. `depth` brackets are open, and
`lineStart` says that no token was found on this line. Every step takes at least one byte, so
`fuel` is the length of the text. -/
def scanAll (acc : List Token) (depth : Nat) (lineStart : Bool) : Nat → Text → Option (List Token)
  | _, [] => some acc.reverse
  | 0, _ :: _ => none
  | fuel + 1, b :: t =>
    if b == 0 then some acc.reverse
    else if isBlank b then
      let rest := t.dropWhile isBlank
      let empty := rest.isEmpty || rest.head? == some 0 || rest.head? == some 35 || breakLength rest ≠ 0
      if lineStart && depth == 0 && !empty then none else scanAll acc depth lineStart fuel rest
    else if b == Text.byte '#' then
      scanAll acc depth lineStart fuel (t.dropWhile fun b => b != 10 && b != 13 && b != 0)
    else if b == Text.byte '\\' then
      match breakLength t with
      | 0 => none
      | n => scanAll acc depth false fuel (t.drop n)
    else
      match breakLength (b :: t) with
      | 0 =>
        match next (b :: t) with
        | none => none
        | some (token, rest) =>
          match nesting depth token with
          | none => none
          | some depth => scanAll (token :: acc) depth false fuel rest
      | n + 1 =>
        scanAll (if depth ≠ 0 || lineStart then acc else .newline :: acc) depth true fuel (t.drop n)

/-- The tokens of a text. -/
def scan (t : Text) : Option (List Token) := scanAll [] 0 true t.length t

end Token

end Dcpu16.Expression
