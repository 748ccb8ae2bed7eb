/-
Sources: the instructions of a text with the place of each. Lines are read in order, each with the
equates that those before it left; the first that is wrong ends the reading, as do a line that
does not fit and a failure of the input.
-/
import Dcpu16.Source.Line

namespace Dcpu16

/-! ## Lines

A line ends at a line feed, and one carriage return before it is dropped. A line of 65536 bytes or
more does not fit. A failure of the input comes after all of its bytes. -/

/-- What is read: bytes, and the message of the failure that comes after them, if there is one. -/
structure Input where
  text : Text
  failure : Option Text := none
deriving DecidableEq, Repr

namespace Input

/-- The lines of a text with their ends removed, onto those so far, newest first; `line` holds the
bytes since the last one. Nothing after the last line feed is no line. -/
def splitOnto (acc : List Text) (line : Text) : Text → List Text
  | [] => if line.isEmpty then acc else line.reverse :: acc
  | b :: t => if b = 10 then splitOnto (line.reverse :: acc) [] t else splitOnto acc (b :: line) t

/-- The lines of a text, each without its line feed. -/
def split (t : Text) : List Text := (splitOnto [] [] t).reverse

/-- A line has to be shorter than this. -/
def lineLimit : Nat := 65536

/-- The line fits. -/
def fits (line : Text) : Bool := line.length < lineLimit

/-- Without a carriage return at the end. -/
def dropReturn (line : Text) : Text :=
  if line.getLast? = some 13 then line.dropLast else line

/-- The lines that are read. -/
def lines (i : Input) : List Text := ((split i.text).takeWhile fits).map dropReturn

/-- Why reading stopped, unless at the end. -/
def error? (i : Input) : Option ReadError :=
  if (split i.text).all fits then i.failure.map .input else some .lineTooLong

end Input

/-! ## Instructions -/

/-- A program with the number and the text of the line of each instruction. -/
structure Source where
  instructions : List Instruction
  lineNumbers : List Int
  lines : List Text
deriving DecidableEq, Repr

/-- The equates that every source starts with. -/
def systemEquates : Equates := Table.ofList [(Text.ofString "MEMORY_SIZE", Text.ofString "0x10000")]

/-- An instruction at its place. -/
structure Located where
  instruction : Instruction
  lineNumber : Nat
  line : Text
deriving DecidableEq, Repr

/-- The source of instructions at their places. -/
def Source.ofLocated (ls : List Located) : Source :=
  ⟨ls.map (·.instruction), ls.map fun l => (l.lineNumber : Int), ls.map (·.line)⟩

/-- How far reading got: the equates, the instructions, and the number and text of the last line. -/
structure Progress where
  equates : Equates
  located : Array Located := #[]
  number : Nat := 0
  line : Text := []
deriving Repr

namespace Progress

/-- Reads one more line. A wrong line counts as read but leaves nothing else. -/
def step [Evaluator] (p : Progress) (raw : Text) : Except (LineError × Progress) Progress :=
  let number := p.number + 1
  let line := Line.clean raw
  match Line.parse p.equates line with
  | .error err => .error (err, { p with number, line })
  | .ok (is, equates) =>
    .ok { equates, number, line, located := p.located ++ is.toArray.map (⟨·, number, line⟩) }

/-- Reads lines up to the first that is wrong. -/
def steps [Evaluator] (p : Progress) : List Text → Except (LineError × Progress) Progress
  | [] => .ok p
  | raw :: raws =>
    match p.step raw with
    | .ok p => p.steps raws
    | .error e => .error e

/-- A fault at the last line. -/
def fault (p : Progress) (error : SourceError) : SyntaxError := ⟨p.number, p.line, error⟩

end Progress

/-- What reading a source gives: the source or its fault, the equates that were left, and the lines
that were read. -/
structure Reading where
  result : Except SyntaxError Source
  equates : Equates
  lines : List Text

/-- Reads a source with some equates. A failure of the reading counts for the line before it. -/
def Source.read [Evaluator] (equates : Equates) (input : Input) : Reading :=
  let lines := input.lines
  match Progress.steps { equates } lines with
  | .error (err, p) => ⟨.error (p.fault (.line err)), p.equates, lines.take p.number⟩
  | .ok p =>
    match input.error? with
    | some err => ⟨.error (p.fault (.read err)), p.equates, lines⟩
    | none => ⟨.ok (Source.ofLocated p.located.toList), p.equates, lines⟩

end Dcpu16
