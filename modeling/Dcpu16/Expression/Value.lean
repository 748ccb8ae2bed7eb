/-
Values of the expression language and their operators. Integers and floats mix; a truth value is
no number. Values of different kinds are unequal, and only numbers among them have an order. An
operator gives nothing where the language has an error.
-/
import Dcpu16.Expression.Number
import Dcpu16.Text.Utf8

namespace Dcpu16.Expression

/-- The functions that an expression can name. Of those that it cannot call only the name is
known. -/
inductive Builtin where
  | abs | bool | int | len | max | min | ord
  | other (name : Text)
deriving DecidableEq, Repr

/-- A value. -/
inductive Value where
  | null
  | bool (b : Bool)
  | int (n : Int)
  | float (x : Float)
  | string (t : Text)
  | tuple (items : List Value)
  | list (items : List Value)
  | builtin (f : Builtin)

/-- What counts as true. -/
def Value.truth : Value → Bool
  | .null => false
  | .bool b => b
  | .int n => n != 0
  | .float x => x != 0.0
  | .string t => !t.isEmpty
  | .tuple xs | .list xs => !xs.isEmpty
  | .builtin _ => true

/-! ## Comparisons -/

/-- The comparison operators. -/
inductive Comparison where
  | eq | ne | lt | le | gt | ge
deriving DecidableEq, Repr

/-- The result of a comparison of two ordered things. -/
def Comparison.holds (c : Comparison) (o : Ordering) : Bool :=
  match c with
  | .eq => o == .eq
  | .ne => o != .eq
  | .lt => o == .lt
  | .le => o != .gt
  | .gt => o == .gt
  | .ge => o != .lt

/-- Things without an order are only equal or not. -/
def Comparison.identity? (c : Comparison) (same : Bool) : Option Bool :=
  match c with
  | .eq => some same
  | .ne => some !same
  | _ => none

/-- The order of byte strings. -/
def compareTexts : Text → Text → Ordering
  | [], [] => .eq
  | [], _ :: _ => .lt
  | _ :: _, [] => .gt
  | x :: xs, y :: ys => if x < y then .lt else if y < x then .gt else compareTexts xs ys

/-- Sequences compare at their first difference, by `test`, or else by length. Sequences of
different lengths are not searched for equality. -/
def compareSequences (test : Comparison → Value → Value → Option Bool) (c : Comparison)
    (xs ys : List Value) : Option Bool :=
  if xs.length ≠ ys.length ∧ c = .eq then some false
  else if xs.length ≠ ys.length ∧ c = .ne then some true
  else go xs ys
where
  go : List Value → List Value → Option Bool
    | x :: xs, y :: ys =>
      match test .eq x y with
      | some true => go xs ys
      | some false =>
        match c with
        | .eq => some false
        | .ne => some true
        | _ => test c x y
      | none => none
    | xs, ys => some (c.holds (compare xs.length ys.length))

/-- Compares two values, sequences to a nesting of `depth`. -/
def compareValues : Nat → Comparison → Value → Value → Option Bool
  | 0, _, _, _ => none
  | depth + 1, c, x, y =>
    match x, y with
    | .null, .null => c.identity? true
    | .bool a, .bool b => some (c.holds (compare a.toNat b.toNat))
    | .int m, .int n => some (c.holds (compare m n))
    | .float a, .float b => some (c.holds (compareFloats a b))
    | .int n, .float a => some (c.holds (compareIntFloat n a))
    | .float a, .int n => some (c.holds (compareIntFloat n a).swap)
    | .string s, .string t => some (c.holds (compareTexts s t))
    | .tuple xs, .tuple ys => compareSequences (compareValues depth) c xs ys
    | .list xs, .list ys => compareSequences (compareValues depth) c xs ys
    | .builtin f, .builtin g => c.identity? (f == g)
    | _, _ => c.identity? false

/-- Compares two values. -/
def Comparison.apply (c : Comparison) (x y : Value) : Option Bool := compareValues 10 c x y

/-- A text occurs in another. -/
def occursIn (s : Text) : Text → Bool
  | [] => s.isEmpty
  | b :: t => s.isPrefixOf (b :: t) || occursIn s t

/-- A value is among others. -/
def memberOf (x : Value) : List Value → Option Bool
  | [] => some false
  | y :: ys =>
    match Comparison.eq.apply y x with
    | some false => memberOf x ys
    | r => r

/-- The membership operator. -/
def contains (x : Value) : Value → Option Bool
  | .tuple ys | .list ys => memberOf x ys
  | .string t =>
    match x with
    | .string s => some (occursIn s t)
    | _ => none
  | _ => none

/-! ## Arithmetic -/

/-- Counts and indices are integers of 32 bits. -/
def Value.count? : Value → Option Int
  | .int n => if -0x80000000 ≤ n ∧ n < 0x80000000 then some n else none
  | _ => none

/-- Two numbers as floats, unless one is a too large integer. -/
def floats? : Value → Value → Option (Float × Float)
  | .float x, .float y => some (x, y)
  | .int m, .float y => (finiteOfInt? m).map (·, y)
  | .float x, .int n => (finiteOfInt? n).map (x, ·)
  | .int m, .int n => do return (← finiteOfInt? m, ← finiteOfInt? n)
  | _, _ => none

/-- The divisor is not zero. -/
def nonzero (p : Float × Float) : Option (Float × Float) := if p.2 == 0.0 then none else some p

/-- The items of a sequence repeated. A result of more than about a thousand million items is
refused. -/
def repeated? {α : Type} (items : List α) (times : Value) : Option (List α) :=
  if items.isEmpty then
    match times with
    | .int _ => some []
    | _ => none
  else do
    let n ← times.count?
    if n < 1 then return []
    if 0x40000000 ≤ items.length * n then none
    return (List.replicate n.toNat items).flatten

/-- The binary operators that compute both operands. -/
inductive BinaryOp where
  | mul | div | floorDiv | mod | add | sub | shiftLeft | shiftRight | bitAnd | bitXor | bitOr
  | compare (c : Comparison)
  | member (negated : Bool)
deriving DecidableEq, Repr

namespace BinaryOp

/-- Multiplication and repetition. -/
def applyMul : Value → Value → Option Value
  | .int m, .int n => some (.int (m * n))
  | .string t, n => (repeated? t n).map .string
  | n, .string t => (repeated? t n).map .string
  | .tuple xs, n => (repeated? xs n).map .tuple
  | n, .tuple xs => (repeated? xs n).map .tuple
  | .list xs, n => (repeated? xs n).map .list
  | n, .list xs => (repeated? xs n).map .list
  | x, y => (floats? x y).map fun (a, b) => .float (a * b)

/-- Addition and concatenation. -/
def applyAdd : Value → Value → Option Value
  | .int m, .int n => some (.int (m + n))
  | .string s, .string t => some (.string (s ++ t))
  | .tuple xs, .tuple ys => some (.tuple (xs ++ ys))
  | .list xs, .list ys => some (.list (xs ++ ys))
  | x, y => (floats? x y).map fun (a, b) => .float (a + b)

/-- The shifts. A count is not negative, and a left shift moves by less than 512 bits. -/
def applyShift (left : Bool) (x y : Value) : Option Value := do
  let .int m := x | none
  let n ← y.count?
  if n < 0 then none
  else if !left then return .int (Expression.shiftRight m n.toNat)
  else if 512 ≤ n then none
  else return .int (Expression.shiftLeft m n.toNat)

/-- An operator on integers only. -/
def onInts (f : Int → Int → Int) : Value → Value → Option Value
  | .int m, .int n => some (.int (f m n))
  | _, _ => none

/-- The operator on two values. Division rounds down and its remainder has the sign of the
divisor; a plain quotient is a float. -/
def apply (op : BinaryOp) (x y : Value) : Option Value :=
  match op with
  | .mul => applyMul x y
  | .div => ((floats? x y).bind nonzero).map fun (a, b) => .float (a / b)
  | .floorDiv =>
    match x, y with
    | .int m, .int n => if n = 0 then none else some (.int (Int.fdiv m n))
    | _, _ => ((floats? x y).bind nonzero).map fun (a, b) => .float (a / b).floor
  | .mod =>
    match x, y with
    | .int m, .int n => if n = 0 then none else some (.int (Int.fmod m n))
    | _, _ => ((floats? x y).bind nonzero).map fun (a, b) => .float (flooredMod a b)
  | .add => applyAdd x y
  | .sub =>
    match x, y with
    | .int m, .int n => some (.int (m - n))
    | _, _ => (floats? x y).map fun (a, b) => .float (a - b)
  | .shiftLeft => applyShift true x y
  | .shiftRight => applyShift false x y
  | .bitAnd => onInts Expression.bitAnd x y
  | .bitXor => onInts Expression.bitXor x y
  | .bitOr => onInts Expression.bitOr x y
  | .compare c => (c.apply x y).map .bool
  | .member negated => (contains x y).map fun b => .bool (b != negated)

end BinaryOp

/-- The unary operators. -/
inductive UnaryOp where
  | plus | minus | bitNot | logicalNot
deriving DecidableEq, Repr

/-- The operator on a value. -/
def UnaryOp.apply : UnaryOp → Value → Option Value
  | .logicalNot, x => some (.bool !x.truth)
  | .plus, .int n => some (.int n)
  | .plus, .float x => some (.float x)
  | .minus, .int n => some (.int (-n))
  | .minus, .float x => some (.float (-x))
  | .bitNot, .int n => some (.int (Expression.bitNot n))
  | _, _ => none

/-- The item at an index of a sequence, a negative one counting from the end. An item of a text is
a text of one byte. -/
def Value.index (x i : Value) : Option Value :=
  match x with
  | .tuple xs | .list xs => i.count?.bind (pick xs)
  | .string t => (i.count?.bind (pick t)).map fun b => .string [b]
  | _ => none
where
  pick {α : Type} (xs : List α) (i : Int) : Option α :=
    let j := if i < 0 then i + xs.length else i
    if j < 0 then none else xs[j.toNat]?

end Dcpu16.Expression
