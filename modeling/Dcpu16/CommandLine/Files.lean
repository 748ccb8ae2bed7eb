/-
The files that a run can use. A system of files says where the opening of a path leads, what is
there, and what writing there leaves; how it gets from a path to a place is its own affair. The
tree of files is such a system: a path leads from the root or from the working directory through
one directory after the other, single dots stand still and double dots go back.
-/
import Dcpu16.Image.Basic

namespace Dcpu16

/-- Systems of files, each state of which holds some files. A place is where a file is, or can
be: two paths may lead to one place. -/
structure FileSystem (σ π : Type) where
  /-- The place that opening a path for reading leads to, or why it cannot be opened. -/
  source : σ → Text → Except Text π
  /-- The place where opening a path for writing makes or replaces a file, or why it does not. -/
  target : σ → Text → Except Text π
  /-- The bytes of the file at a place. -/
  get? : σ → π → Option Text
  /-- Puts a file at a place. -/
  insert : σ → π → Text → σ
  get?_insert_self : ∀ s place bytes, get? (insert s place bytes) place = some bytes
  get?_insert_of_ne : ∀ s place bytes other, other ≠ place → get? (insert s place bytes) other = get? s other

/-! ## Paths -/

namespace Path

/-- The names in a path. -/
def names (path : Text) : List Text := (path.splitOn (Text.byte '/')).filter (! ·.isEmpty)

/-- A path without its extension, which goes from the last dot to the end, unless a slash comes
after that dot. -/
def stem (path : Text) : Text :=
  let isMark := fun b => b == Text.byte '.' || b == Text.byte '/'
  match path.reverse.dropWhile (!isMark ·) with
  | 46 :: rest => rest.reverse
  | _ => path

/-- A path starts at the root. -/
def isAbsolute (path : Text) : Bool := path.head? == some (Text.byte '/')

/-- A path ends in a slash, and so asks for a directory. -/
def isOpen (path : Text) : Bool := path.getLast? == some (Text.byte '/')

/-- A path that is too long for the system, counting its end. -/
def limit : Nat := 4096

/-- The longest name. -/
def nameLimit : Nat := 255

end Path

/-! ## The tree of files -/

/-- Where a file is: the names of the directories on the way from the root, and its own. -/
abbrev Place := List Text

/-- Why a file cannot be used. -/
inductive FileError where
  | notFound
  | notDirectory
  | isDirectory
  | nameTooLong
deriving DecidableEq, Repr

def FileError.message : FileError → Text
  | .notFound => Text.ofString "no such file or directory"
  | .notDirectory => Text.ofString "not a directory"
  | .isDirectory => Text.ofString "is a directory"
  | .nameTooLong => Text.ofString "file name too long"

/-- The files with their bytes, the directories, and the working directory. A directory on the way
to one of these need not be listed. -/
structure Files where
  entries : List (Place × Text) := []
  directories : List Place := []
  here : Place := []
deriving DecidableEq, Repr

namespace Files

/-- The bytes of the file at a place. -/
def get? (fs : Files) (place : Place) : Option Text := fs.entries.lookup place

/-- Puts a file at a place. -/
def insert (fs : Files) (place : Place) (bytes : Text) : Files :=
  { fs with entries := (place, bytes) :: fs.entries.filter (·.1 != place) }

/-- The files of a list of paths below a working directory, the last one of a path standing. -/
def ofList (here : Place) (files : List (Text × Text)) : Files :=
  files.foldl (fun fs f => fs.insert (here ++ Path.names f.1) f.2) { here }

/-- The place is a directory: the root, or a directory that is listed, or on the way to one or to a
file. -/
def isDirectory (fs : Files) (place : Place) : Bool :=
  place.isEmpty || (fs.here :: fs.directories).any place.isPrefixOf ||
    fs.entries.any fun e => place.isPrefixOf e.1 && place.length < e.1.length

/-- The place that `name` leads to from a directory. The root is above itself. -/
def enter (place : Place) (name : Text) : Except FileError Place :=
  if name = Text.ofString "." then .ok place
  else if name = Text.ofString ".." then .ok place.dropLast
  else if name.length ≤ Path.nameLimit then .ok (place ++ [name])
  else .error .nameTooLong

/-- Nothing but a directory will do at a place. -/
def noDirectory (fs : Files) (place : Place) : FileError :=
  if (fs.get? place).isSome then .notDirectory else .notFound

/-- The place that names lead to, one after the other. Only the last need not be there. -/
def walk (fs : Files) (place : Place) : List Text → Except FileError Place
  | [] => .ok place
  | name :: names =>
    if fs.isDirectory place then
      match enter place name with
      | .ok next => fs.walk next names
      | .error e => .error e
    else .error (fs.noDirectory place)

/-- The place of a path. -/
def locate (fs : Files) (path : Text) : Except FileError Place :=
  if Path.limit ≤ path.length then .error .nameTooLong
  else if path.isEmpty then .error .notFound
  else fs.walk (if Path.isAbsolute path then [] else fs.here) (Path.names path)

/-- The place of a path that can be opened: a directory, or a file unless the path asks for a
directory. -/
def source (fs : Files) (path : Text) : Except FileError Place :=
  match fs.locate path with
  | .error e => .error e
  | .ok place =>
    if fs.isDirectory place ∨ (fs.get? place).isSome ∧ !Path.isOpen path then .ok place
    else .error (fs.noDirectory place)

/-- The place of a path where a file can be written. -/
def target (fs : Files) (path : Text) : Except FileError Place :=
  match fs.locate path with
  | .error e => .error e
  | .ok place => if Path.isOpen path ∨ fs.isDirectory place then .error .isDirectory else .ok place

theorem get?_insert (fs : Files) (place : Place) (bytes : Text) (other : Place) :
    (fs.insert place bytes).get? other = if other = place then some bytes else fs.get? other :=
  Table.lookup_replace place bytes fs.entries other

/-- The files as a system. -/
def system : FileSystem Files Place where
  source fs path := (fs.source path).mapError FileError.message
  target fs path := (fs.target path).mapError FileError.message
  get? := get?
  insert := insert
  get?_insert_self fs place bytes := by rw [get?_insert, if_pos rfl]
  get?_insert_of_ne fs place bytes other h := by rw [get?_insert, if_neg h]

/-- The files below the working directory that are new or have other bytes than before, with their
paths. -/
def changes (before after : Files) : List (Text × Text) :=
  (after.entries.filter fun e => after.here.isPrefixOf e.1 && before.get? e.1 != some e.2).map fun e =>
    (Text.join (Text.ofString "/") (e.1.drop after.here.length), e.2)

end Files

end Dcpu16
