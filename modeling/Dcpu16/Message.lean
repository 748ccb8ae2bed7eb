/-
Messages for the reader. A message is a key with verbs, filled in with arguments: `%v` and `%d`
write integers with commas between groups of three digits, `%04x` writes plain hexadecimal of at
least four digits, and `%%` is a percent sign.
-/
import Dcpu16.Text.Numeral

namespace Dcpu16.Message

/-- An argument of a message. -/
inductive Arg where
  | int (n : Int)
  | text (t : Text)
deriving DecidableEq, Repr

instance : Coe Int Arg := ⟨.int⟩

instance : Coe Text Arg := ⟨.text⟩

/-- What `%v` writes. -/
def Arg.plain : Arg → Text
  | .int n => Numeral.grouped n
  | .text t => t

/-- What `%d` writes. A text is no number and is shown as an unfitting argument. -/
def Arg.number : Arg → Text
  | .int n => Numeral.grouped n
  | .text t => Text.ofString "%!d(string=" ++ t ++ Text.ofString ")"

/-- What `%04x` writes: a sign counts as one of the four places, and a text is written byte by
byte. -/
def Arg.hexadecimal : Arg → Text
  | .int (.ofNat n) => Numeral.hex 4 n
  | .int (.negSucc n) => Text.byte '-' :: Numeral.hex 3 (n + 1)
  | .text t => Numeral.zeroPad 4 (t.flatMap fun b => Numeral.hex 2 b.toNat)

/-- Fills in the verbs, onto the reversed text so far. Without an argument left a verb is
dropped. -/
def fill (acc : Text) : Text → List Arg → Text
  | 37 :: 37 :: t, args => fill (37 :: acc) t args
  | 37 :: 118 :: t, a :: args => fill (a.plain.reverse ++ acc) t args
  | 37 :: 100 :: t, a :: args => fill (a.number.reverse ++ acc) t args
  | 37 :: 48 :: 52 :: 120 :: t, a :: args => fill (a.hexadecimal.reverse ++ acc) t args
  | 37 :: 118 :: t, [] => fill acc t []
  | 37 :: 100 :: t, [] => fill acc t []
  | 37 :: 48 :: 52 :: 120 :: t, [] => fill acc t []
  | b :: t, args => fill (b :: acc) t args
  | [], _ => acc

/-- The message of a key with its arguments. -/
def format (key : Text) (args : List Arg) : Text := (fill [] key args).reverse

/-- A line of the log: a message ends in one newline. -/
def logLine (message : Text) : Text :=
  if message.getLast? = some 10 then message else message ++ [10]

end Dcpu16.Message
