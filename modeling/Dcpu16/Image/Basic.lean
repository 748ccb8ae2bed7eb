/-
Images: the words of a program with the addresses of its labels and, for each instruction, the
span of words it became. The labels are a finite table with texts as keys, as the equates of a
source are; a key occurs once, and inserting replaces.
-/
import Dcpu16.Machine.Word
import Dcpu16.Text.Utf8

namespace Dcpu16

/-! ## Tables -/

/-- A finite map from texts. -/
structure Table (α : Type) where
  entries : List (Text × α) := []
deriving Repr

namespace Table

variable {α : Type}

/-- The value of a key. -/
def get? (t : Table α) (key : Text) : Option α := t.entries.lookup key

/-- Sets the value of a key. -/
def insert (t : Table α) (key : Text) (value : α) : Table α :=
  ⟨(key, value) :: t.entries.filter (·.1 != key)⟩

/-- Inserts all of `pairs` in order, so that the last value of a key stands. -/
def insertAll (t : Table α) (pairs : List (Text × α)) : Table α :=
  pairs.foldl (fun t p => t.insert p.1 p.2) t

/-- The table of the last value of each key. -/
def ofList (pairs : List (Text × α)) : Table α := insertAll {} pairs

section Lookup

variable {κ : Type} [BEq κ] [LawfulBEq κ]

theorem lookup_filter_ne (key name : κ) (h : name ≠ key) :
    ∀ ps : List (κ × α), (ps.filter (·.1 != key)).lookup name = ps.lookup name
  | [] => rfl
  | p :: ps => by
    by_cases hp : p.1 = key
    · have hn : (name == p.1) = false := by rw [hp]; exact beq_false_of_ne h
      rw [List.filter_cons_of_neg (by simp [hp]), lookup_filter_ne key name h ps, List.lookup_cons, hn]
    · rw [List.filter_cons_of_pos (by simp [hp]), List.lookup_cons, List.lookup_cons, lookup_filter_ne key name h ps]

/-- An entry that replaces those of its key. -/
theorem lookup_replace [DecidableEq κ] (key : κ) (value : α) (ps : List (κ × α)) (name : κ) :
    ((key, value) :: ps.filter (·.1 != key)).lookup name = if name = key then some value else ps.lookup name := by
  rw [List.lookup_cons]
  split
  · rename_i h
    rw [if_pos (beq_iff_eq.1 h)]
  · rename_i h
    have hn : name ≠ key := by simpa using h
    rw [if_neg hn, lookup_filter_ne key name hn]

end Lookup

end Table

/-! ## Images -/

/-- The words that an instruction became: its place in the program, its first address and how
many there are. -/
structure Span where
  index : Int
  start : Int
  size : Int
deriving DecidableEq, Repr

/-- A program in memory. -/
structure Image where
  words : List Word
  labels : Table Word
  spans : List Span
deriving Repr

namespace Span

/-- An address lies inside the span. -/
def owns (s : Span) (address : Word) : Bool :=
  s.start ≤ address.toNat && (address.toNat : Int) < s.start + s.size

end Span

/-- By address, then by name. -/
def symbolLe (x y : Text × Word) : Bool :=
  if x.2 < y.2 then true else if y.2 < x.2 then false else Text.le x.1 y.1

/-- The labels of a table ordered by address, then by name. -/
def Table.symbols (labels : Table Word) : List (Text × Word) := labels.entries.mergeSort symbolLe

namespace Image

/-- The span of the instruction that a word belongs to. -/
def owner? (i : Image) (address : Word) : Option Span := i.spans.find? (·.owns address)

/-- The labels ordered by address, then by name. -/
def symbols (i : Image) : List (Text × Word) := i.labels.symbols

end Image

/-- The two bytes of a word, high byte first. -/
def Word.bytes (w : Word) : Text := [(w >>> 8).toUInt8, w.toUInt8]

/-- The image as bytes, high byte first. -/
def Image.bytes (i : Image) : Text := i.words.flatMap Word.bytes

end Dcpu16
