/-
Listings: one line for each instruction of an image, with its address and words, and one for
each label. The names of the labels are kept by address while a listing is written. Before the line
of an instruction come the names at its addresses, which are then struck out; names that are left
come at the end. The first failure of the sink ends the listing, and what was written before stays.
-/
import Dcpu16.Image.Basic
import Dcpu16.Image.Decode

namespace Dcpu16

/-! ## Sinks -/

/-- A sink that fails on call number `failAt`, counted from one; zero is never. -/
structure Sink where
  failAt : Nat := 0
  calls : Nat := 0
  written : Array Text := #[]
deriving Repr

/-- The failure of a sink. -/
structure WriteError where
deriving DecidableEq, Repr

def WriteError.message (_ : WriteError) : Text := Text.ofString "write failed"

namespace Sink

/-- One call. -/
def write (s : Sink) (t : Text) : Except WriteError Unit × Sink :=
  let s := { s with calls := s.calls + 1 }
  if s.calls = s.failAt then (.error {}, s) else (.ok (), { s with written := s.written.push t })

/-- Everything written. -/
def text (s : Sink) : Text := s.written.toList.flatten

end Sink

/-- Writes an image in one call; the result counts the bytes written. -/
def Image.write (i : Image) (s : Sink) : Except WriteError Nat × Sink :=
  match s.write i.bytes with
  | (.ok (), s) => (.ok i.bytes.length, s)
  | (.error e, s) => (.error e, s)

namespace Listing

/-! ## Lines -/

/-- A line of a listing. -/
inductive Line where
  | label (name : Text)
  | row (decoded : Decoded)
deriving DecidableEq, Repr

/-- Pads with spaces to at least `width` bytes. -/
def pad (width : Nat) (t : Text) : Text := t ++ List.replicate (width - t.length) (Text.byte ' ')

/-- The text of a line. The words of an instruction fill a column of fourteen places. -/
def Line.render : Line → Text
  | .label name => Text.byte ':' :: (name ++ [10])
  | .row d =>
    Text.ofString "0x" ++ Numeral.hex 4 d.address ++ Text.ofString ": " ++
      pad 14 (Text.join (Text.ofString " ") (d.words.map Numeral.hexWord)) ++ Text.ofString "  " ++
      d.instruction.render ++ [10]

/-! ## Names by address -/

/-- The names at each address that has some. -/
structure Names where
  entries : List (Nat × List Text) := []
deriving DecidableEq, Repr

namespace Names

/-- The names at an address. -/
def get (m : Names) (address : Nat) : List Text := (m.entries.lookup address).getD []

/-- Puts a name behind those at its address. -/
def add (m : Names) (name : Text) (address : Nat) : Names :=
  ⟨(address, m.get address ++ [name]) :: m.entries.filter (·.1 != address)⟩

/-- Strikes out the names at an address. -/
def erase (m : Names) (address : Nat) : Names := ⟨m.entries.filter (·.1 != address)⟩

/-- The addresses that have names, in order. -/
def addresses (m : Names) : List Nat := (m.entries.map Prod.fst).mergeSort Nat.ble

/-- The names of labels, in whatever order the table has them. -/
def ofLabels (labels : Table Word) : Names :=
  labels.entries.foldl (fun m label => m.add label.1 label.2.toNat) {}

end Names

/-! ## Writing -/

/-- A listing on its way: the sink, and the names that are still to come. -/
structure Printer where
  sink : Sink
  names : Names
deriving Repr

/-- How far a listing got. -/
abbrev Outcome := Except WriteError Unit × Printer

/-- Goes on unless the sink has failed. -/
def Outcome.andThen (r : Outcome) (next : Printer → Outcome) : Outcome :=
  match r with
  | (.ok (), p) => next p
  | (.error e, p) => (.error e, p)

namespace Printer

/-- Writes a line. -/
def line (p : Printer) (l : Line) : Outcome :=
  let (r, sink) := p.sink.write l.render
  (r, { p with sink })

/-- Writes lines for names. -/
def labelLines (p : Printer) : List Text → Outcome
  | [] => (.ok (), p)
  | name :: names => (p.line (.label name)).andThen (·.labelLines names)

/-- Writes the names at an address in order, and strikes them out once all are written. -/
def labels (p : Printer) (address : Nat) : Outcome :=
  (p.labelLines ((p.names.get address).mergeSort Text.le)).andThen fun p =>
    (.ok (), { p with names := p.names.erase address })

/-- Writes the names at `count` addresses from `address` on. -/
def labelsFrom (p : Printer) (address : Nat) : Nat → Outcome
  | 0 => (.ok (), p)
  | count + 1 => (p.labels address).andThen (·.labelsFrom (address + 1) count)

/-- Writes an instruction of an image that reaches from `address` to `stop`: the names at its
addresses, then its line. -/
def instruction (words : Array Word) (p : Printer) (address stop : Nat) (i : Instruction) : Outcome :=
  (p.labelsFrom address (stop - address)).andThen
    (·.line (.row ⟨address, (words.extract address stop).toList, i⟩))

/-- Writes the instructions of an image, each of which reaches to the next one or to the end. -/
def instructions (words : Array Word) (p : Printer) : List (Nat × Instruction) → Outcome
  | [] => (.ok (), p)
  | (address, i) :: rest =>
    let stop := (rest.head?.map Prod.fst).getD words.size
    (p.instruction words address stop i).andThen (·.instructions words rest)

/-- Writes the names at each of a list of addresses. -/
def labelsAt (p : Printer) : List Nat → Outcome
  | [] => (.ok (), p)
  | address :: rest => (p.labels address).andThen (·.labelsAt rest)

/-- Writes the names that are left. -/
def flush (p : Printer) : Outcome := p.labelsAt p.names.addresses

end Printer

/-- Writes a listing, one call for each line. -/
def write (words : List Word) (labels : Table Word) (s : Sink) : Except WriteError Unit × Sink :=
  let decoded := (decode false words).map fun d => (d.address, d.instruction)
  let p : Printer := ⟨s, Names.ofLabels labels⟩
  let (r, p) := (p.instructions words.toArray decoded).andThen Printer.flush
  (r, p.sink)

/-- The whole listing. -/
def text (words : List Word) (labels : Table Word) : Text := (write words labels {}).2.text

end Listing

end Dcpu16
