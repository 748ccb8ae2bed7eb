/-
The names of labels carry no meaning but which of them are the same. A renaming that keeps names apart goes through
both passes step by step: cells, draft and errors are those of the program with their labels renamed, and so
is the image, whose words and spans hold no names.
-/
import Mathlib.Data.List.Basic
import Dcpu16.Proofs.Image.Codec
import Dcpu16.Proofs.Image.Layout

namespace Dcpu16

/-! ## Renaming labels -/

/-- The literal that a name and a number stand for: a label if there is a name, else the number. -/
def Literal.ofParts (name : Text) (number : Word) : Literal :=
  match name with
  | [] => .number number
  | name => .label name

variable (f : Text → Text)

def Literal.rename : Literal → Literal
  | .number w => .number w
  | .label name => .label (f name)

def Operand.rename : Operand → Operand
  | .offset r l => .offset r (l.rename f)
  | .memory l => .memory (l.rename f)
  | .immediate l => .immediate (l.rename f)
  | o => o

def Datum.rename : Datum → Datum
  | .label name => .label (f name)
  | x => x

/-- The instruction with its labels renamed, those that it defines and those that it refers to. -/
def Instruction.rename : Instruction → Instruction
  | .basic op b a => .basic op (b.rename f) (a.rename f)
  | .special op a => .special op (a.rename f)
  | .label name => .label (f name)
  | .data items => .data (items.map (Datum.rename f))
  | i => i

/-- The error of the same kind with its label renamed. -/
def ImageError.rename : ImageError → ImageError
  | .labelMissing name => .labelMissing (f name)
  | .labelDuplicate name => .labelDuplicate (f name)
  | e => e

def InstructionError.rename (e : InstructionError) : InstructionError :=
  ⟨e.index, e.instruction.rename f, e.error.rename f⟩

/-- The table with its keys renamed. -/
def Table.rename {α : Type} (t : Table α) : Table α := ⟨t.entries.map fun p => (f p.1, p.2)⟩

/-! ## Renaming inside the layout -/

def Field.rename (x : Field) : Field := { x with next := x.next.map (Literal.rename f) }

def Cell.rename : Cell → Cell
  | .word w => .word w
  | .reference label => .reference (f label)
  | .define label => .define (f label)
  | .fault e => .fault (e.rename f)

def Event.rename : Event → Event
  | .line n t => .line n t
  | .redefined label address old => .redefined (f label) address old
  | .defined label address => .defined (f label) address
  | .patched position address label => .patched position address (f label)

def Reference.rename (r : Reference) : Reference := { r with label := f r.label }

def Draft.rename (d : Draft) : Draft :=
  { d with
    pending := d.pending.map (Reference.rename f)
    labels := d.labels.rename f
    events := d.events.map (Event.rename f) }

/-- What comes of a step, with all labels renamed, those of the error by `g`. -/
def Draft.renameOutcome {ε : Type} (g : ε → ε) : Except (Halt ε) Draft → Except (Halt ε) Draft
  | .ok d => .ok (d.rename f)
  | .error e => .error ⟨g e.error, e.draft.rename f⟩

variable {f}

/-! ## Cells -/

theorem Literal.ofParts_of_ne_nil {name : Text} (h : name ≠ []) (number : Word) :
    ofParts name number = .label name := by
  cases name with
  | nil => exact absurd rfl h
  | cons b t => rfl

/-- A renaming that leaves the empty name alone, and makes no other empty, acts on the name of a literal. -/
theorem Literal.rename_ofParts (hempty : ∀ name, f name = [] ↔ name = []) (name : Text) (number : Word) :
    (ofParts name number).rename f = ofParts (f name) number := by
  by_cases hname : name = []
  · rw [hname, (hempty []).2 rfl]
    rfl
  · have hne : f name ≠ [] := fun h => hname ((hempty name).1 h)
    rw [ofParts_of_ne_nil hname, ofParts_of_ne_nil hne, rename]

theorem Literal.field_rename (l : Literal) : (l.rename f).field = l.field.rename f := by
  cases l with
  | number w =>
    simp only [rename, field]
    cases w.inlineCode? <;> rfl
  | label name => rfl

/-- Renaming changes no code, and no error. -/
theorem Decode.encode_rename (p : Position) (o : Operand) :
    p.encode (o.rename f) = (p.encode o).map (Field.rename f) := by
  cases o with
  | register r =>
    simp only [Operand.rename, encode_register, Register.field]
    cases r.code? <;> rfl
  | indirect r =>
    simp only [Operand.rename, encode_indirect, Register.indirectField]
    cases r.indirectCode? <;> rfl
  | offset r l =>
    simp only [Operand.rename, encode_offset, Register.offsetField]
    cases r.offsetCode? <;> rfl
  | immediate l =>
    cases p with
    | value => exact congrArg Except.ok l.field_rename
    | destination => rfl
  | _ => cases p <;> rfl

theorem Field.trailing_rename (x : Field) : (x.rename f).trailing = x.trailing.map (Cell.rename f) := by
  rw [trailing, trailing, rename]
  rcases x.next with - | (w | name) <;> rfl

theorem Datum.cells_rename (x : Datum) : (x.rename f).cells = x.cells.map (Cell.rename f) := by
  cases x with
  | string t => simp [rename, cells, Cell.rename, Function.comp_def]
  | _ => rfl

/-- The cells of a renamed instruction are its cells renamed. -/
theorem Instruction.cells_rename (i : Instruction) : (i.rename f).cells = i.cells.map (Cell.rename f) := by
  have hvalue : ∀ o : Operand, (o.rename f).encodeValue = o.encodeValue.map (Field.rename f) :=
    Decode.encode_rename .value
  have hdest : ∀ o : Operand, (o.rename f).encodeDestination = o.encodeDestination.map (Field.rename f) :=
    Decode.encode_rename .destination
  cases i with
  | basic op b a =>
    simp only [rename, cells, basicCells, hvalue, hdest]
    cases op.code? with
    | none => rfl
    | some code =>
      cases a.encodeValue with
      | error e => rfl
      | ok value =>
        cases b.encodeDestination with
        | error e => rfl
        | ok dest =>
          simp only [Except.map, Field.trailing_rename, List.map_cons, List.map_append]
          rfl
  | special op a =>
    simp only [rename, cells, specialCells, hvalue]
    cases op.code? with
    | none => rfl
    | some code =>
      cases a.encodeValue with
      | error e => rfl
      | ok value =>
        simp only [Except.map, Field.trailing_rename, List.map_cons]
        rfl
  | data items => simp only [rename, cells, List.flatMap_map, List.map_flatMap, Datum.cells_rename]
  | label name => rfl
  | missing => rfl
  | foreign name => rfl

/-! ## Tables -/

namespace Table

variable {α : Type}

theorem get?_rename (hf : Function.Injective f) (t : Table α) (name : Text) :
    (t.rename f).get? (f name) = t.get? name := by
  unfold get? rename
  simp only
  induction t.entries with
  | nil => rfl
  | cons p ps ih =>
    have hkey : (f name == f p.1) = (name == p.1) := by
      rw [Bool.eq_iff_iff, beq_iff_eq, beq_iff_eq, hf.eq_iff]
    rw [List.map_cons, List.lookup_cons, List.lookup_cons, hkey, ih]

theorem insert_rename (hf : Function.Injective f) (t : Table α) (name : Text) (value : α) :
    (t.rename f).insert (f name) value = (t.insert name value).rename f := by
  have hkey : ((fun p : Text × α => p.1 != f name) ∘ fun p : Text × α => (f p.1, p.2)) = fun p => p.1 != name := by
    funext p
    rw [Function.comp_apply, Bool.eq_iff_iff, bne_iff_ne, bne_iff_ne, hf.ne_iff]
  unfold insert rename
  simp only
  rw [List.filter_map, hkey, List.map_cons]

end Table

/-! ## The two passes -/

namespace Draft

variable {strict : Bool} {n : Nat}

theorem define_rename (hf : Function.Injective f) (d : Draft) (name : Text) :
    (d.rename f).define strict (f name) = renameOutcome f (ImageError.rename f) (d.define strict name) := by
  unfold define
  simp only [rename, Table.get?_rename hf, Table.insert_rename hf]
  by_cases hroom : memorySize ≤ d.words.size
  · simp [hroom, renameOutcome, rename, ImageError.rename]
  · cases d.labels.get? name with
    | none => simp [hroom, renameOutcome, rename, Event.rename]
    | some old => cases strict <;> simp [hroom, renameOutcome, rename, Event.rename, ImageError.rename]

theorem place_rename (hf : Function.Injective f) (d : Draft) (c : Cell) :
    (d.rename f).place strict n (c.rename f) = renameOutcome f (ImageError.rename f) (d.place strict n c) := by
  cases c with
  | word w => rfl
  | reference name => simp [place, Cell.rename, rename, renameOutcome, Reference.rename]
  | define name => exact define_rename hf d name
  | fault e => rfl

theorem placeAll_rename (hf : Function.Injective f) (d : Draft) (cs : List Cell) :
    (d.rename f).placeAll strict n (cs.map (Cell.rename f)) =
      renameOutcome f (ImageError.rename f) (d.placeAll strict n cs) := by
  induction cs generalizing d with
  | nil => rfl
  | cons c cs ih =>
    rw [List.map_cons, placeAll, placeAll, place_rename hf]
    cases d.place strict n c with
    | error e => rfl
    | ok d₁ => exact ih d₁

theorem add_rename (hf : Function.Injective f) (d : Draft) (i : Instruction) :
    (d.rename f).add strict (i.rename f) = renameOutcome f (InstructionError.rename f) (d.add strict i) := by
  have hspans : (d.rename f).spans = d.spans := rfl
  unfold add
  simp only [hspans, Instruction.cells_rename, placeAll_rename hf]
  cases d.placeAll strict d.spans.size i.cells with
  | error e => rfl
  | ok d₁ =>
    simp only [renameOutcome, rename]
    by_cases hroom : memorySize < d₁.words.size
    · simp [hroom, InstructionError.rename, ImageError.rename]
    · simp [hroom]

theorem addAll_rename (hf : Function.Injective f) (d : Draft) (is : List Instruction) :
    (d.rename f).addAll strict (is.map (Instruction.rename f)) =
      renameOutcome f (InstructionError.rename f) (d.addAll strict is) := by
  induction is generalizing d with
  | nil => rfl
  | cons i is ih =>
    rw [List.map_cons, addAll, addAll, add_rename hf]
    cases d.add strict i with
    | error e => rfl
    | ok d₁ => exact ih d₁

theorem patch_rename (hf : Function.Injective f) (program : List Instruction) (d : Draft) (r : Reference) :
    (d.rename f).patch (program.map (Instruction.rename f)) (r.rename f) =
      renameOutcome f (InstructionError.rename f) (d.patch program r) := by
  unfold patch
  simp only [Reference.rename, rename, Table.get?_rename hf]
  cases d.labels.get? r.label with
  | none =>
    simp only [List.getElem?_map, renameOutcome, rename, InstructionError.rename, ImageError.rename]
    cases program[r.instruction]? <;> rfl
  | some w => simp [renameOutcome, rename, Event.rename]

theorem patchAll_rename (hf : Function.Injective f) (program : List Instruction) (d : Draft) (rs : List Reference) :
    (d.rename f).patchAll (program.map (Instruction.rename f)) (rs.map (Reference.rename f)) =
      renameOutcome f (InstructionError.rename f) (d.patchAll program rs) := by
  induction rs generalizing d with
  | nil => rfl
  | cons r rs ih =>
    rw [List.map_cons, patchAll, patchAll, patch_rename hf]
    cases d.patch program r with
    | error e => rfl
    | ok d₁ => exact ih d₁

theorem rename_empty : Draft.rename f {} = {} := by simp [rename, Table.rename]

end Draft

/-- Both passes over a renamed program, with what is reported on the way. -/
theorem layout_rename (hf : Function.Injective f) (strict : Bool) (program : List Instruction) :
    layout strict (program.map (Instruction.rename f)) =
      Draft.renameOutcome f (InstructionError.rename f) (layout strict program) := by
  have hadd : Draft.addAll strict (Draft.rename f {}) (program.map (Instruction.rename f)) = _ :=
    Draft.addAll_rename hf {} program
  rw [Draft.rename_empty] at hadd
  unfold layout
  rw [hadd]
  cases Draft.addAll strict {} program with
  | error e => rfl
  | ok d =>
    simp only [Draft.renameOutcome, Draft.rename, Array.toList_map]
    exact Draft.patchAll_rename hf program d d.pending.toList

/-- The image of a program with its labels renamed has the same words and spans, and the table of labels renamed; an
error is at the same instruction and of the same kind, with its label renamed. A literal is renamed by its name,
and one without a name stays the number it is. -/
theorem generate_rename (strict : Bool) (f : Text → Text) (hf : Function.Injective f)
    (hempty : ∀ name, f name = [] ↔ name = []) (program : List Instruction) :
    (∀ name number, (Literal.ofParts name number).rename f = .ofParts (f name) number) ∧
    generate strict (program.map (Instruction.rename f)) =
      match generate strict program with
      | .ok image => .ok { image with labels := image.labels.rename f }
      | .error e => .error ⟨e.index, e.instruction.rename f, e.error.rename f⟩ := by
  refine ⟨Literal.rename_ofParts hempty, ?_⟩
  unfold generate
  rw [layout_rename hf]
  cases layout strict program with
  | error e => rfl
  | ok d => rfl

/-- Every byte of a name is replaced by the next one, so that the new name of one label is the old name of another. -/
theorem generate_rename_shift :
    let f : Text → Text := List.map (· + 1)
    let program : List Instruction :=
      [.label (Text.ofString "a"), .basic .set (.memory (.label (Text.ofString "b"))) (.immediate (.number 5)),
        .data [.label (Text.ofString "b"), .word 7], .special .jsr (.immediate (.label (Text.ofString "a")))]
    let call : Instruction := .special .jsr (.immediate (.label (Text.ofString "b")))
    Function.Injective f ∧ (∀ name, f name = [] ↔ name = []) ∧
    (∃ image, generate true program = .ok image ∧
      generate true (program.map (Instruction.rename f)) = .ok { image with labels := image.labels.rename f } ∧
      (image.labels.rename f).get? (Text.ofString "b") = some 0 ∧
      (image.labels.rename f).get? (Text.ofString "c") = some 2) ∧
    generate true [.label (Text.ofString "a"), call] = .error ⟨1, call, .labelMissing (Text.ofString "b")⟩ ∧
    generate true ([.label (Text.ofString "a"), call].map (Instruction.rename f)) =
      .error ⟨1, call.rename f, .labelMissing (Text.ofString "c")⟩ := by
  intro f program call
  have hf : Function.Injective f := List.map_injective_iff.2 fun x y h => by simpa using h
  have hempty : ∀ name, f name = [] ↔ name = [] := fun name => List.map_eq_nil_iff
  have himage : generate true program = .ok ⟨[0x9bc1, 2, 7, 0x7c20, 0],
      ⟨[(Text.ofString "b", 2), (Text.ofString "a", 0)]⟩, [⟨0, 0, 0⟩, ⟨1, 0, 2⟩, ⟨2, 2, 1⟩, ⟨3, 3, 2⟩]⟩ := rfl
  have herror : generate true [.label (Text.ofString "a"), call] =
      .error ⟨1, call, .labelMissing (Text.ofString "b")⟩ := rfl
  refine ⟨hf, hempty, ⟨_, himage, ?_, rfl, rfl⟩, herror, ?_⟩
  · rw [(generate_rename true f hf hempty program).2, himage]
  · rw [(generate_rename true f hf hempty _).2, herror]
    rfl

end Dcpu16
