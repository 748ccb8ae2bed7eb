/-
Expression trees and their reading from tokens. Operators bind in ten levels, from `or` to
multiplication; comparisons do not associate. A program is a sequence of simple statements, one
of which is the assignment of an expression to a variable.
-/
import Dcpu16.Expression.Token
import Dcpu16.Expression.Value

namespace Dcpu16.Expression

/-- An expression. The values of named arguments stand in the order of their names. -/
inductive Tree where
  | literal (v : Value)
  | name (t : Text)
  | unary (op : UnaryOp) (x : Tree)
  | binary (op : BinaryOp) (x y : Tree)
  | and (x y : Tree)
  | or (x y : Tree)
  | cond (test yes no : Tree)
  | tuple (items : List Tree)
  | list (items : List Tree)
  | index (x i : Tree)
  | attribute (x : Tree) (t : Text)
  | call (f : Tree) (args : List Tree) (names : List Text) (values : List Tree)

/-- A simple statement. -/
inductive Statement where
  | pass
  | compute (x : Tree)
  | assign (target : Text) (x : Tree)

namespace Tree

/-! ## Operators -/

/-- How an operator is built. -/
inductive Operator where
  | binary (op : BinaryOp)
  | and
  | or

/-- The tree of an operator on two operands. -/
def Operator.build : Operator → Tree → Tree → Tree
  | .binary op => .binary op
  | .and => .and
  | .or => .or

/-- The level of comparisons. -/
def comparisonLevel : Nat := 3

/-- The binary operators with their levels, loosest first. The level of `not` lies between. -/
def operators : List (String × Nat × Operator) :=
  [("or", 0, .or), ("and", 1, .and),
    ("==", 3, .binary (.compare .eq)), ("!=", 3, .binary (.compare .ne)),
    ("<", 3, .binary (.compare .lt)), (">", 3, .binary (.compare .gt)),
    ("<=", 3, .binary (.compare .le)), (">=", 3, .binary (.compare .ge)),
    ("in", 3, .binary (.member false)), ("|", 4, .binary .bitOr), ("^", 5, .binary .bitXor),
    ("&", 6, .binary .bitAnd), ("<<", 7, .binary .shiftLeft), (">>", 7, .binary .shiftRight),
    ("-", 8, .binary .sub), ("+", 8, .binary .add), ("*", 9, .binary .mul), ("%", 9, .binary .mod),
    ("/", 9, .binary .div), ("//", 9, .binary .floorDiv)]

/-- The operator at the front with its level and the tokens after it; none if the front is no
operator. -/
def operator? : List Token → Option (Nat × Operator × List Token)
  | .mark "not" :: .mark "in" :: ts => some (comparisonLevel, .binary (.member true), ts)
  | .mark m :: ts => (operators.lookup m).map fun (level, op) => (level, op, ts)
  | _ => none

/-- The unary operators that bind tighter than all binary ones. -/
def sign? : Token → Option UnaryOp
  | .mark "-" => some .minus
  | .mark "+" => some .plus
  | .mark "~" => some .bitNot
  | _ => none

/-- What ends a list of expressions after a comma. -/
def endsList : List Token → Bool
  | [] | .newline :: _ | .mark "=" :: _ | .mark ")" :: _ | .mark "]" :: _ | .mark ";" :: _ => true
  | _ => false

/-- The most arguments that a call has by place, and the most by name. -/
def argumentLimit : Nat := 255

/-! ## Reading

Each function takes fuel, gives the tree it read and the tokens after it, and spends one unit of
fuel for each call. No token is preceded by more than sixteen calls that read none. -/

mutual

/-- An expression without commas: a choice, or operators on operands. -/
def test : Nat → List Token → Option (Tree × List Token)
  | 0, _ => none
  | fuel + 1, ts => do
    let (x, ts) ← operand fuel 0 ts
    match ts with
    | .mark "if" :: ts =>
      let (c, ts) ← operand fuel 0 ts
      match ts with
      | .mark "else" :: ts =>
        let (y, ts) ← test fuel ts
        return (.cond c x y, ts)
      | _ => none
    | _ => return (x, ts)

/-- An operand of the operators of a level: what holds operators of tighter levels only. -/
def operand : Nat → Nat → List Token → Option (Tree × List Token)
  | 0, _, _ => none
  | fuel + 1, level, ts =>
    if 10 ≤ level then
      match primary fuel ts with
      | some (x, ts) => suffixes fuel x ts
      | none => none
    else
      match level, ts with
      | 2, .mark "not" :: ts => do
        let (x, ts) ← operand fuel 2 ts
        return (.unary .logicalNot x, ts)
      | _, _ => do
        let (x, ts) ← operand fuel (level + 1) ts
        chain fuel level true x ts

/-- The operators of a level and their right operands, after the left operand `x`. -/
def chain : Nat → Nat → Bool → Tree → List Token → Option (Tree × List Token)
  | 0, _, _, _, _ => none
  | fuel + 1, level, first, x, ts =>
    match operator? ts with
    | none => if ts.head? matches some (.mark "not") then none else some (x, ts)
    | some (l, op, rest) =>
      if l < level then some (x, ts)
      else if !first && l == comparisonLevel then none
      else do
        let (y, rest) ← operand fuel (l + 1) rest
        chain fuel level false (op.build x y) rest

/-- A name, a literal, a bracket or a sign with its operand. -/
def primary : Nat → List Token → Option (Tree × List Token)
  | 0, _ => none
  | fuel + 1, ts =>
    match ts with
    | .name t :: ts => some (.name t, ts)
    | .int n :: ts => some (.literal (.int n), ts)
    | .float x :: ts => some (.literal (.float x), ts)
    | .string t :: ts => some (.literal (.string t), ts)
    | .mark "(" :: .mark ")" :: ts => some (.tuple [], ts)
    | .mark "(" :: ts => do
      let (x, ts) ← exprs fuel true ts
      match ts with
      | .mark ")" :: ts => return (x, ts)
      | _ => none
    | .mark "[" :: .mark "]" :: ts => some (.list [], ts)
    | .mark "[" :: ts => do
      let (x, ts) ← test fuel ts
      let (xs, ts) ← more fuel true ts
      match ts with
      | .mark "]" :: ts => return (.list (x :: xs), ts)
      | _ => none
    | t :: ts => do
      let op ← sign? t
      let (x, ts) ← operand fuel 10 ts
      return (.unary op x, ts)
    | [] => none

/-- Attributes, indices and calls after an operand. -/
def suffixes : Nat → Tree → List Token → Option (Tree × List Token)
  | 0, _, _ => none
  | fuel + 1, x, ts =>
    match ts with
    | .mark "." :: .name t :: ts => suffixes fuel (.attribute x t) ts
    | .mark "." :: _ => none
    | .mark "[" :: ts => do
      let (i, ts) ← exprs fuel false ts
      match ts with
      | .mark "]" :: ts => suffixes fuel (.index x i) ts
      | _ => none
    | .mark "(" :: ts => do
      let (args, ts) ← arguments fuel [] [] [] ts
      suffixes fuel (.call x args.1 args.2.1 args.2.2) ts
    | _ => some (x, ts)

/-- The arguments of a call up to the closing parenthesis, onto those so far, newest first. A named
one is a bare name with its value and comes after all others, and a comma may stand after the
last. -/
def arguments : Nat → List Tree → List Text → List Tree → List Token →
    Option ((List Tree × List Text × List Tree) × List Token)
  | 0, _, _, _, _ => none
  | _ + 1, args, names, values, .mark ")" :: ts =>
    if args.length ≤ argumentLimit ∧ names.length ≤ argumentLimit then
      some ((args.reverse, names.reverse, values.reverse), ts)
    else none
  | fuel + 1, args, names, values, ts => do
    let (args, names, values, ts) ←
      match ts with
      | .name t :: .mark "=" :: ts =>
        if names.contains t then none
        else do
          let (y, ts) ← test fuel ts
          some (args, t :: names, y :: values, ts)
      | ts =>
        if names.isEmpty then do
          let (x, ts) ← test fuel ts
          some (x :: args, names, values, ts)
        else none
    match ts with
    | .mark "," :: ts => arguments fuel args names values ts
    | .mark ")" :: _ => arguments fuel args names values ts
    | _ => none

/-- Expressions with commas between them are a tuple. -/
def exprs : Nat → Bool → List Token → Option (Tree × List Token)
  | 0, _, _ => none
  | fuel + 1, trailing, ts => do
    let (x, ts) ← test fuel ts
    match ts with
    | .mark "," :: _ =>
      let (xs, ts) ← more fuel trailing ts
      return (.tuple (x :: xs), ts)
    | _ => return (x, ts)

/-- Further expressions, each after a comma; whether one may end the list is for `trailing` to
say. -/
def more : Nat → Bool → List Token → Option (List Tree × List Token)
  | 0, _, _ => none
  | fuel + 1, trailing, ts =>
    match ts with
    | .mark "," :: ts =>
      if endsList ts then if trailing then some ([], ts) else none
      else do
        let (x, ts) ← test fuel ts
        let (xs, ts) ← more fuel trailing ts
        return (x :: xs, ts)
    | _ => some ([], ts)

end

end Tree

namespace Statement

/-- One statement. -/
def read (fuel : Nat) (ts : List Token) : Option (Statement × List Token) :=
  match ts with
  | .mark "pass" :: ts => some (.pass, ts)
  | ts => do
    let (x, ts) ← Tree.exprs fuel false ts
    match ts with
    | .mark "=" :: ts =>
      let .name target := x | none
      let (y, ts) ← Tree.exprs fuel false ts
      return (.assign target y, ts)
    | _ => return (.compute x, ts)

/-- Statements up to the end, separated by semicolons and line breaks, onto those so far, newest
first. Every statement has a token of its own, so `rounds` is their number. -/
def readAll (fuel : Nat) (acc : List Statement) : Nat → List Token → Option (List Statement)
  | _, [] => some acc.reverse
  | 0, _ :: _ => none
  | rounds + 1, .newline :: ts => readAll fuel acc rounds ts
  | rounds + 1, ts =>
    match read fuel ts with
    | some (s, .mark ";" :: ts) => readAll fuel (s :: acc) rounds ts
    | some (s, .newline :: ts) => readAll fuel (s :: acc) rounds ts
    | some (s, []) => some (s :: acc).reverse
    | _ => none

/-- The statements of a program text. -/
def parse (t : Text) : Option (List Statement) := do
  let ts ← Token.scan t
  readAll (16 * ts.length + 16) [] ts.length ts

end Statement

end Dcpu16.Expression
