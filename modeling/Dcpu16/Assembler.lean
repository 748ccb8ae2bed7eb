/-
The assembler as an object that is used again and again. It keeps its predefines and modes; each
reading starts from fresh equates, and the equates of the last reading can be asked for.
-/
import Dcpu16.Image.Draft
import Dcpu16.Source.Basic

namespace Dcpu16

/-- An assembler: its modes, what was predefined, and the equates of the last reading. -/
structure Assembler where
  strict : Bool := false
  verbose : Bool := false
  predefines : Equates := {}
  equates : Option Equates := none
deriving Repr

/-- Why a source has no image: a fault at a line, a fault at an instruction whose line is not
known, or a list of lines that is too short. -/
inductive AssemblyError where
  | located (e : SyntaxError)
  | bare (e : InstructionError)
  | linesMissing (e : OutOfRange)
deriving DecidableEq, Repr

def AssemblyError.message : AssemblyError → Text
  | .located e => e.message
  | .bare e => e.message
  | .linesMissing e => e.message

/-- A result with what was reported on the way to it. -/
structure Reported (α : Type) where
  result : α
  events : List Event
deriving Repr

/-- The place of an instruction's fault in its source. -/
def Source.locate (s : Source) (e : InstructionError) : AssemblyError :=
  match s.lineNumbers[e.index]? with
  | none => .bare e
  | some n =>
    match s.lines[e.index]? with
    | some line => .located ⟨n, line, .image e.error⟩
    | none => .linesMissing ⟨e.index, s.lines.length⟩

namespace Assembler

/-- Sets the text of a name for every later reading. -/
def predefine (a : Assembler) (name text : Text) : Assembler :=
  { a with predefines := a.predefines.insert name text }

/-- The equates that a reading starts from. -/
def initialEquates (a : Assembler) : Equates := systemEquates.insertAll a.predefines.entries

/-- The text of a name after the last reading. -/
def equate? (a : Assembler) (name : Text) : Option Text := a.equates.bind (·.get? name)

/-- The events of reading lines. -/
def lineEvents (lines : List Text) : List Event := lines.mapIdx fun n t => .line (n + 1) t

/-- Reads a source. -/
def parse [Evaluator] (a : Assembler) (input : Input) : Reported (Except SyntaxError Source) × Assembler :=
  let r := Source.read a.initialEquates input
  (⟨r.result, lineEvents r.lines⟩, { a with equates := some r.equates })

/-- Makes the image of a source. -/
def generate (a : Assembler) (s : Source) : Reported (Except AssemblyError Image) :=
  match layout a.strict s.instructions with
  | .ok d => ⟨.ok d.image, d.events.toList⟩
  | .error e => ⟨.error (s.locate e.error), e.draft.events.toList⟩

/-- Reads a source and makes its image. -/
def assemble [Evaluator] (a : Assembler) (input : Input) : Reported (Except AssemblyError Image) × Assembler :=
  match a.parse input with
  | (⟨.error e, events⟩, a) => (⟨.error (.located e), events⟩, a)
  | (⟨.ok s, events⟩, a) =>
    let r := a.generate s
    (⟨r.result, events ++ r.events⟩, a)

end Assembler

end Dcpu16
