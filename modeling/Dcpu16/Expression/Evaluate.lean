/-
Evaluation. Every name of a program has a meaning before it runs: a variable that the program
assigns, else a number of the surroundings, else a constant or function of the language. A
variable is assigned once and read only afterwards.
-/
import Dcpu16.Expression.Builtin
import Dcpu16.Expression.Tree
import Dcpu16.Machine.Word

namespace Dcpu16.Expression

/-- The constants and functions of the language. -/
def universal? (t : Text) : Option Value :=
  if t = Text.ofString "None" then some .null
  else if t = Text.ofString "True" then some (.bool true)
  else if t = Text.ofString "False" then some (.bool false)
  else (Builtin.ofName? t).map .builtin

/-! ## Trees -/

mutual

/-- The names in a tree. -/
def Tree.names : Tree → List Text
  | .literal _ => []
  | .name t => [t]
  | .unary _ x | .attribute x _ => x.names
  | .binary _ x y | .and x y | .or x y | .index x y => x.names ++ y.names
  | .cond c x y => c.names ++ x.names ++ y.names
  | .tuple xs | .list xs => namesOf xs
  | .call f args _ values => f.names ++ namesOf args ++ namesOf values

/-- The names in trees. -/
def namesOf : List Tree → List Text
  | [] => []
  | x :: xs => x.names ++ namesOf xs

end

mutual

/-- The value of a tree. -/
def Tree.value (env : Text → Option Value) : Tree → Option Value
  | .literal v => some v
  | .name t => env t
  | .unary op x => do op.apply (← x.value env)
  | .binary op x y => do op.apply (← x.value env) (← y.value env)
  | .and x y => do
    let v ← x.value env
    if v.truth then y.value env else return v
  | .or x y => do
    let v ← x.value env
    if v.truth then return v else y.value env
  | .cond c x y => do
    let v ← c.value env
    if v.truth then x.value env else y.value env
  | .tuple xs => do return .tuple (← valuesOf env xs)
  | .list xs => do return .list (← valuesOf env xs)
  | .index x i => do (← x.value env).index (← i.value env)
  | .attribute _ _ => none
  | .call f args names values => do
    let .builtin f ← f.value env | none
    f.call (← valuesOf env args) (names.zip (← valuesOf env values))

/-- The values of trees. -/
def valuesOf (env : Text → Option Value) : List Tree → Option (List Value)
  | [] => some []
  | x :: xs => do return (← x.value env) :: (← valuesOf env xs)

end

/-! ## Programs -/

/-- The expression of a statement. -/
def Statement.tree? : Statement → Option Tree
  | .pass => none
  | .compute x | .assign _ x => some x

/-- The variable that a statement assigns. -/
def Statement.target? : Statement → Option Text
  | .assign t _ => some t
  | _ => none

/-- No text occurs twice. -/
def distinct : List Text → Bool
  | [] => true
  | t :: ts => !ts.contains t && distinct ts

/-- Every name has a meaning and no variable is assigned twice. -/
def resolved (numbers : Text → Option Int) (program : List Statement) : Bool :=
  let targets := program.filterMap Statement.target?
  distinct targets &&
    (program.filterMap Statement.tree?).all fun x => x.names.all fun t =>
      targets.contains t || (numbers t).isSome || (universal? t).isSome

/-- What a name means while a program runs, given its variables and those assigned so far. -/
def meaning (numbers : Text → Option Int) (targets : List Text) (assigned : List (Text × Value))
    (t : Text) : Option Value :=
  if targets.contains t then assigned.lookup t else ((numbers t).map .int) <|> universal? t

/-- Runs statements one after the other; gives the variables they assign. -/
def run (numbers : Text → Option Int) (targets : List Text) (assigned : List (Text × Value)) :
    List Statement → Option (List (Text × Value))
  | [] => some assigned
  | .pass :: rest => run numbers targets assigned rest
  | .compute x :: rest =>
    match x.value (meaning numbers targets assigned) with
    | some _ => run numbers targets assigned rest
    | none => none
  | .assign t x :: rest =>
    match x.value (meaning numbers targets assigned) with
    | some v => run numbers targets ((t, v) :: assigned) rest
    | none => none

/-- The word that an expression computes, with some names standing for numbers. The expression is
what the program `rc=…` assigns; it has to be an integer that a word can hold. -/
def evaluate (numbers : Text → Option Int) (expression : Text) : Option Word := do
  let result := Text.ofString "rc"
  let program ← Statement.parse (result ++ Text.ofString "=" ++ expression ++ [10])
  if !resolved numbers program then none
  let assigned ← run numbers (program.filterMap Statement.target?) [] program
  let .int n ← assigned.lookup result | none
  Word.ofInt? n

end Dcpu16.Expression
