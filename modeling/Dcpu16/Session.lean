/-
Assemblers and generators that are used again and again. A call gives its answer and leaves the
object as it is for the next one: an assembler keeps its modes, its predefines and the equates of
its last reading; a generator fills a draft of its own, which it clears before and after each
program.
-/
import Dcpu16.Assembler

namespace Dcpu16

/-! ## Generators -/

/-- A generator: its modes and the draft that it fills. -/
structure Generator where
  strict : Bool := false
  verbose : Bool := false
  draft : Draft := {}
deriving Repr

/-- Lays out a program behind what a draft holds: both passes. -/
def Draft.extend (strict : Bool) (d : Draft) (program : List Instruction) :
    Except (Halt InstructionError) Draft :=
  match d.addAll strict program with
  | .error e => .error e
  | .ok d => d.patchAll program d.pending.toList

namespace Generator

/-- Clears the draft. -/
def reset (g : Generator) : Generator := { g with draft := {} }

/-- Makes the image of a program. What an earlier program left in the draft is cleared before, and
what this one leaves is cleared at the end, whether or not it fails. -/
def generate (g : Generator) (program : List Instruction) :
    Reported (Except InstructionError Image) × Generator :=
  let g := g.reset
  match g.draft.extend g.strict program with
  | .ok d => (⟨.ok d.image, d.events.toList⟩, { g with draft := d }.reset)
  | .error e => (⟨.error e.error, e.draft.events.toList⟩, { g with draft := e.draft }.reset)

/-- What is asked of a generator. -/
inductive Call where
  | strict (on : Bool)
  | verbose (on : Bool)
  | generate (program : List Instruction)
deriving DecidableEq, Repr

/-- The generator after a call. -/
def next (g : Generator) : Call → Generator
  | .strict on => { g with strict := on }
  | .verbose on => { g with verbose := on }
  | .generate program => (g.generate program).2

/-- The generator after calls, one after the other. -/
def after (g : Generator) (calls : List Call) : Generator := calls.foldl next g

end Generator

/-! ## Assemblers -/

namespace Assembler

/-- What is asked of an assembler. -/
inductive Call where
  | predefine (name text : Text)
  | strict (on : Bool)
  | verbose (on : Bool)
  | parse (input : Input)
  | assemble (input : Input)
  | generate (source : Source)
  | equate (name : Text)
deriving DecidableEq, Repr

/-- What an assembler answers. -/
inductive Answer where
  | done
  | source (reading : Reported (Except SyntaxError Source))
  | image (making : Reported (Except AssemblyError Image))
  | equate (text : Option Text)

/-- One call. -/
def perform [Evaluator] (a : Assembler) : Call → Answer × Assembler
  | .predefine name text => (.done, a.predefine name text)
  | .strict on => (.done, { a with strict := on })
  | .verbose on => (.done, { a with verbose := on })
  | .parse input =>
    let (reading, a) := a.parse input
    (.source reading, a)
  | .assemble input =>
    let (making, a) := a.assemble input
    (.image making, a)
  | .generate source => (.image (a.generate source), a)
  | .equate name => (.equate (a.equate? name), a)

/-- The assembler after calls, one after the other. -/
def after [Evaluator] (a : Assembler) (calls : List Call) : Assembler :=
  calls.foldl (fun a call => (a.perform call).2) a

end Assembler

end Dcpu16
