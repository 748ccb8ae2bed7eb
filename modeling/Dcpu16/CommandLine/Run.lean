/-
A run of the command line: the arguments and the files there are give an exit status, what is
printed, and the files that are left. The image is written last, once nothing else can fail. What
is done is the same over the files of the system, over a tree of files and over any other way to
reach files.
-/
import Dcpu16.CommandLine.Files
import Dcpu16.CommandLine.Options
import Dcpu16.Image.Listing

namespace Dcpu16.CommandLine

/-- How a run ends: its exit status and what it printed. -/
structure Ending where
  status : UInt32
  stdout : Text
  stderr : Text
deriving DecidableEq, Repr

/-- A line that says what is wrong with `name`. -/
def complaint (name reason : Text) : Text := Message.logLine (name ++ Text.ofString ": " ++ reason)

/-- A file cannot be opened. -/
def openReason (name reason : Text) : Text :=
  Text.ofString "open " ++ name ++ Text.ofString ": " ++ reason

/-- A file was opened and cannot be read. -/
def readReason (name reason : Text) : Text :=
  Text.ofString "read " ++ name ++ Text.ofString ": " ++ reason

/-! ## What to do -/

/-- One file to assemble. -/
structure Job where
  options : Options
  input : Text
deriving DecidableEq, Repr

/-- Where the image goes: to the path that was asked for, or beside the input. -/
def Job.output (j : Job) : Text :=
  if j.options.output.isEmpty then Path.stem j.input ++ Text.ofString ".bin" else j.options.output

/-- The end of a run whose options are not used: help is no failure. -/
def OptionError.ending (e : OptionError) : Ending :=
  match e.message? with
  | none => ⟨0, [], usage⟩
  | some line => ⟨2, [], line ++ 10 :: usage⟩

/-- The job of an argument list, which has to name one input file. -/
def job (args : List Text) : Except Ending Job :=
  match Options.read {} args with
  | .error e => .error e.ending
  | .ok (options, [input]) => .ok ⟨options, input⟩
  | .ok (_, operands) =>
    .error ⟨1, [], complaint (Text.ofString "dasm")
      (Text.ofString "Expected one input file, got: [" ++ Text.join (Text.ofString " ") operands ++
        Text.ofString "]")⟩

/-! ## Doing it -/

/-- The tree of a source, one instruction a line behind the number of its source line. -/
def treeText (s : Source) : Text :=
  (s.lineNumbers.zip s.instructions).flatMap fun (n, i) =>
    let number := Numeral.decimal n
    List.replicate (4 - number.length) (Text.byte ' ') ++ number ++ Text.ofString ": " ++ i.shape ++
      [10]

/-- What assembling printed, and the bytes of the image unless it failed. -/
structure Product where
  stdout : Text
  stderr : Text
  bytes : Option Text
deriving DecidableEq, Repr

/-- Assembles an input. -/
def Job.product [Evaluator] (j : Job) (input : Input) : Product :=
  let log := fun events => if j.options.verbose then Event.log events else []
  let (reading, assembler) := j.options.assembler.parse input
  match reading.result with
  | .error e => ⟨[], log reading.events ++ complaint j.input e.message, none⟩
  | .ok source =>
    let tree := if j.options.tree then treeText source else []
    let making := assembler.generate source
    let stderr := log reading.events ++ log making.events
    match making.result with
    | .error e => ⟨tree, stderr ++ complaint j.input e.message, none⟩
    | .ok image =>
      let listing := if j.options.listing then Listing.text image.words image.labels else []
      ⟨tree ++ listing, stderr, some image.bytes⟩

/-- How files are reached by their paths: what a file gives to read, and the making of a file. A
failure is the reason why the file cannot be opened. -/
structure Access (m : Type → Type) where
  read : Text → m (Except Text Input)
  write : Text → Text → m (Except Text Unit)

/-- Does a job. The image is written last. -/
def Job.perform {m : Type → Type} [Monad m] [Evaluator] (j : Job) (access : Access m) : m Ending := do
  match ← access.read j.input with
  | .error reason => return ⟨1, [], complaint j.input (openReason j.input reason)⟩
  | .ok input =>
    let p := j.product input
    match p.bytes with
    | none => return ⟨1, p.stdout, p.stderr⟩
    | some image =>
      match ← access.write j.output image with
      | .ok () => return ⟨0, p.stdout, p.stderr⟩
      | .error reason =>
        return ⟨1, p.stdout, p.stderr ++ complaint j.output (openReason j.output reason)⟩

/-- Does what arguments ask for. -/
def perform {m : Type → Type} [Monad m] [Evaluator] (args : List Text) (access : Access m) : m Ending :=
  match job args with
  | .error ending => return ending
  | .ok j => j.perform access

/-! ## Among the files of a system -/

section System

variable {σ π : Type} (fs : FileSystem σ π)

/-- What reading from the place of an open file gives. A place without a file is a directory. -/
def inputAt (files : σ) (path : Text) (place : π) : Input :=
  match fs.get? files place with
  | some text => { text }
  | none => { text := [], failure := some (readReason path FileError.isDirectory.message) }

/-- The files of a system by their paths. -/
def systemAccess : Access (StateM σ) where
  read path := fun files => ((fs.source files path).map (inputAt fs files path), files)
  write path bytes := fun files =>
    match fs.target files path with
    | .ok place => (.ok (), fs.insert files place bytes)
    | .error reason => (.error reason, files)

/-- Runs the command line with its arguments among the files of a system. -/
def run [Evaluator] (args : List Text) (files : σ) : Ending × σ := (perform args (systemAccess fs)).run files

end System

end Dcpu16.CommandLine
