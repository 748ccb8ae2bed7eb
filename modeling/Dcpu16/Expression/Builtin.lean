/-
The functions of the expression language.
-/
import Dcpu16.Expression.Value
import Dcpu16.Text.Numeral

namespace Dcpu16.Expression

namespace Builtin

/-- The function of a name. -/
def ofName? (t : Text) : Option Builtin :=
  (callable.find? fun p => Text.ofString p.1 == t).map (·.2) <|>
    if others.any (Text.ofString · == t) then some (.other t) else none
where
  callable : List (String × Builtin) :=
    [("abs", .abs), ("bool", .bool), ("int", .int), ("len", .len), ("max", .max), ("min", .min), ("ord", .ord)]
  others : List String :=
    ["all", "any", "bytes", "chr", "dict", "dir", "enumerate", "fail", "float", "getattr", "hasattr", "hash",
      "list", "print", "range", "repr", "reversed", "sorted", "str", "tuple", "type", "zip"]

/-! ## Reading integers -/

/-- The value of digits in a base, onto that of those before. -/
def digitsValue (base n : Nat) : Text → Option Nat
  | [] => some n
  | b :: t => do
    let d ← Numeral.digitValue? b
    if d < base then digitsValue base (n * base + d) t else none

/-- The magnitude written in a base. A mark of the base itself is skipped; base zero takes the base
from the mark, and allows a leading zero only in zero. -/
def readMagnitude (base : Nat) (t : Text) : Option Nat :=
  match t with
  | 48 :: mark :: b :: rest =>
    match Numeral.baseOf? mark with
    | some m => if base = 0 ∨ m = base then digitsValue m 0 (b :: rest) else digitsValue base 0 t
    | none => plain
  | _ => plain
where
  plain : Option Nat :=
    if base ≠ 0 then if t.isEmpty then none else digitsValue base 0 t
    else
      match t with
      | [] => none
      | 48 :: _ => if t.all (· == 48) then some 0 else none
      | _ => digitsValue 10 0 t

/-- The integer that a text spells in a base. -/
def readInt (base : Nat) (t : Text) : Option Int :=
  match t with
  | 43 :: t => (readMagnitude base t).map fun n => (n : Int)
  | 45 :: t => (readMagnitude base t).map fun n => -(n : Int)
  | t => (readMagnitude base t).map fun n => (n : Int)

/-! ## Calls -/

/-- Conversion to an integer. Only a text may come with a base, which is ten otherwise. -/
def toInt (x : Value) (base : Option Value) : Option Value :=
  match x, base with
  | .string t, none => (readInt 10 t).map .int
  | .string t, some b => do
    let n ← b.count?
    if n = 0 ∨ (2 ≤ n ∧ n ≤ 36) then (readInt n.toNat t).map .int else none
  | .int n, none => some (.int n)
  | .bool b, none => some (.int b.toNat)
  | .float x, none => (truncate? x).map .int
  | _, _ => none

/-- The first of the items that no later one beats. -/
def extreme (c : Comparison) (best : Value) : List Value → Option Value
  | [] => some best
  | x :: xs =>
    match c.apply x best with
    | some true => extreme c x xs
    | some false => extreme c best xs
    | none => none

/-- The extreme of the arguments, or of the items of a single one. -/
def extremeOf (c : Comparison) : List Value → Option Value
  | [.tuple (x :: xs)] | [.list (x :: xs)] => extreme c x xs
  | [_] | [] => none
  | x :: xs => extreme c x xs

/-- The value of a parameter given by name. -/
def named? (key : String) (named : List (Text × Value)) : Option Value := named.lookup (Text.ofString key)

/-- Arguments of the integer conversion: the value, then the base, each by place or by name, and
no other. -/
def intCall (args : List Value) (named : List (Text × Value)) : Option Value :=
  if named.any fun p => p.1 != Text.ofString "x" && p.1 != Text.ofString "base" then none
  else
    match args, named? "x" named, named? "base" named with
    | [], some x, base => toInt x base
    | [x], none, base => toInt x base
    | [x, b], none, none => toInt x (some b)
    | _, _, _ => none

/-- Calls a function. -/
def call (f : Builtin) (args : List Value) (named : List (Text × Value)) : Option Value :=
  match f, args, named with
  | .int, args, named => intCall args named
  | .len, [.string t], [] => some (.int t.length)
  | .len, [.tuple xs], [] | .len, [.list xs], [] => some (.int xs.length)
  | .ord, [.string t], [] =>
    match Utf8.decode t with
    | [c] => some (.int (Utf8.codePoint c))
    | _ => none
  | .abs, [.int n], [] => some (.int n.natAbs)
  | .abs, [.float x], [] => some (.float x.abs)
  | .bool, [], [] => some (.bool false)
  | .bool, [x], [] => some (.bool x.truth)
  | .max, args, [] => extremeOf .gt args
  | .min, args, [] => extremeOf .lt args
  | _, _, _ => none

end Builtin

end Dcpu16.Expression
