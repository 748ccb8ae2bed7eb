/-
The two passes meet a one-pass description of an image. With the labels of the image in hand, the words
are the encodings of the instructions one after the other, a label in place of each reference; and each
label is the number of words that come before its last definition, however large the program and
whichever side of the definition it is used on.
-/
import Dcpu16.Proofs.Image.Draft
import Dcpu16.Proofs.Table

namespace Dcpu16

/-! ## The description -/

/-- The word of a literal: a number, or the address of its label. -/
def Literal.word? (labels : Table Word) : Literal → Option Word
  | .number w => some w
  | .label name => labels.get? name

/-- The trailing words of a field: one for its literal, if it has one. -/
def Field.trailing? (labels : Table Word) (f : Field) : Option (List Word) :=
  match f.next with
  | none => some []
  | some l => (l.word? labels).map ([·])

/-- The words of a data item: a label has none, a string one for each character. -/
def Datum.words? : Datum → Option (List Word)
  | .label _ => some []
  | .word w => some [w]
  | .string t => some (Datum.stringWords t)
  | .missing | .foreign _ => none

/-- The words of data items, one after the other. -/
def Datum.allWords? : List Datum → Option (List Word)
  | [] => some []
  | x :: xs => x.words?.bind fun ws => (allWords? xs).map (ws ++ ·)

/-- The words of an instruction, if it can be encoded with these labels. -/
def Instruction.words? (labels : Table Word) : Instruction → Option (List Word)
  | .basic op b a =>
    match op.code?, a.encodeValue, b.encodeDestination with
    | some code, .ok value, .ok dest =>
      (value.trailing? labels).bind fun va => (dest.trailing? labels).map fun vb =>
        ((value.code <<< 10) ||| (dest.code <<< 5) ||| code) :: (va ++ vb)
    | _, _, _ => none
  | .special op a =>
    match op.code?, a.encodeValue with
    | some code, .ok value =>
      (value.trailing? labels).map fun va => ((value.code <<< 10) ||| (code <<< 5)) :: va
    | _, _ => none
  | .label _ => some []
  | .data items => Datum.allWords? items
  | .missing | .foreign _ => none

/-- The labels that data items define from an address on, each with the number of words before it. -/
def Datum.definitions (start : Nat) : List Datum → List (Text × Nat)
  | [] => []
  | .label name :: xs => (name, start) :: definitions start xs
  | x :: xs => definitions (start + (x.words?.getD []).length) xs

/-- The labels that an instruction at an address defines. -/
def Instruction.definitions (start : Nat) : Instruction → List (Text × Nat)
  | .label name => [(name, start)]
  | .data items => Datum.definitions start items
  | _ => []

/-- The labels that a program defines, in order, each with the number of words before it. -/
def definitions (labels : Table Word) (start : Nat) : List Instruction → List (Text × Nat)
  | [] => []
  | i :: is => i.definitions start ++ definitions labels (start + ((i.words? labels).getD []).length) is

/-- The address of the last definition of a name. -/
def lastDefinition? (ds : List (Text × Nat)) (name : Text) : Option Nat := ds.reverse.lookup name

/-! ## Cells follow the description -/

namespace Cell

theorem resolve_append (labels : Table Word) (cs ds : List Cell) :
    resolve? labels (cs ++ ds) = (resolve? labels cs).bind fun ws => (resolve? labels ds).map (ws ++ ·) := by
  induction cs with
  | nil => simp [resolve?]
  | cons c cs ih =>
    cases c with
    | word w => simp [resolve?, ih, Option.map_bind, Option.bind_map, Function.comp_def]
    | reference name =>
      cases h : labels.get? name with
      | none => simp [resolve?, h]
      | some w => simp [resolve?, h, ih, Option.map_bind, Option.bind_map, Function.comp_def]
    | define name => simpa [resolve?] using ih
    | fault e => rfl

theorem resolve_words (labels : Table Word) (ws : List Word) : resolve? labels (ws.map .word) = some ws := by
  induction ws with
  | nil => rfl
  | cons w ws ih => simp [resolve?, ih]

theorem resolve_trailing (labels : Table Word) (f : Field) : resolve? labels f.trailing = f.trailing? labels := by
  unfold Field.trailing Field.trailing?
  cases f.next with
  | none => rfl
  | some l =>
    cases l with
    | number w => rfl
    | label name =>
      simp only [Option.map_some, Option.toList_some, Literal.cell, Literal.word?, resolve?]
      cases labels.get? name <;> rfl

end Cell

theorem Datum.resolve_cells (labels : Table Word) (x : Datum) : Cell.resolve? labels x.cells = x.words? := by
  cases x <;> simp [cells, words?, Cell.resolve?, Cell.resolve_words]

theorem Datum.resolve_allCells (labels : Table Word) (xs : List Datum) :
    Cell.resolve? labels (xs.flatMap cells) = allWords? xs := by
  induction xs with
  | nil => rfl
  | cons x xs ih => rw [List.flatMap_cons, Cell.resolve_append, resolve_cells, ih, allWords?]

theorem Instruction.resolve_cells (labels : Table Word) (i : Instruction) :
    Cell.resolve? labels i.cells = i.words? labels := by
  cases i with
  | basic op b a =>
    simp only [cells, basicCells, words?, Word.packBasic]
    cases op.code? <;> cases a.encodeValue <;> cases b.encodeDestination <;>
      simp [Cell.resolve?, Cell.resolve_append, Cell.resolve_trailing, Option.map_bind, Function.comp_def]
  | special op a =>
    simp only [cells, specialCells, words?, Word.packSpecial]
    cases op.code? <;> cases a.encodeValue <;> simp [Cell.resolve?, Cell.resolve_trailing]
  | data items => exact Datum.resolve_allCells labels items
  | label name => rfl
  | missing => rfl
  | foreign name => rfl

theorem Cell.definitions_words (start : Nat) (ws : List Word) (cs : List Cell) :
    definitions start (ws.map .word ++ cs) = definitions (start + ws.length) cs := by
  induction ws generalizing start with
  | nil => rfl
  | cons w ws ih => simp [definitions, ih, Nat.add_assoc, Nat.add_comm 1]

theorem Cell.definitions_trailing (start : Nat) (f g : Field) : definitions start (f.trailing ++ g.trailing) = [] := by
  unfold Field.trailing
  rcases f.next with - | (w | name) <;> rcases g.next with - | (w | name) <;> rfl

theorem Datum.definitions_cells (start : Nat) (xs : List Datum) :
    Cell.definitions start (xs.flatMap cells) = definitions start xs := by
  induction xs generalizing start with
  | nil => rfl
  | cons x xs ih =>
    rw [List.flatMap_cons]
    cases x with
    | label name => simp [cells, Cell.definitions, definitions, ih]
    | word w => simp [cells, Cell.definitions, definitions, words?, ih]
    | string t => simp [cells, Cell.definitions_words, definitions, words?, ih]
    | missing => simp [cells, Cell.definitions, definitions, words?, ih]
    | foreign w => simp [cells, Cell.definitions, definitions, words?, ih]

theorem Instruction.definitions_cells (start : Nat) (i : Instruction) :
    Cell.definitions start i.cells = i.definitions start := by
  cases i with
  | basic op b a =>
    simp only [cells, basicCells, definitions]
    cases op.code? <;> cases a.encodeValue <;> cases b.encodeDestination <;>
      simp [Cell.definitions, Cell.definitions_trailing]
  | special op a =>
    simp only [cells, specialCells, definitions]
    cases op.code? with
    | none => rfl
    | some code =>
      cases a.encodeValue with
      | error e => rfl
      | ok value =>
        simpa [Cell.definitions, Field.trailing] using Cell.definitions_trailing (start + 1) value { code := 0 }
  | data items => exact Datum.definitions_cells start items
  | label name => rfl
  | missing => rfl
  | foreign name => rfl

/-- The definitions of a program are those of its cells, as soon as every instruction has words. -/
theorem definitions_flatMap_cells {labels : Table Word} {is : List Instruction} {parts : List (List Word)}
    (h : List.Forall₂ (fun i ws => Instruction.words? labels i = some ws) is parts) (start : Nat) :
    Cell.definitions start (is.flatMap Instruction.cells) = definitions labels start is := by
  induction h generalizing start with
  | nil => rfl
  | @cons i ws is parts hi _ ih =>
    have hlen := Cell.resolve_length ((Instruction.resolve_cells labels i).trans hi)
    rw [List.flatMap_cons, Cell.definitions_append, Instruction.definitions_cells, ih, definitions, hi,
      Option.getD_some, hlen]

/-! ## Labels -/

/-- Definitions in memory are not cut: each label is the address of its last definition. -/
theorem Table.defineAll_get {ds : List (Text × Nat)} (h : ∀ p ∈ ds, p.2 < memorySize) (name : Text) :
    ((({} : Table Word).defineAll ds).get? name).map UInt16.toNat = lastDefinition? ds name := by
  unfold defineAll lastDefinition?
  rw [get?_insertAll, ← List.map_reverse]
  have hrev : ∀ p ∈ ds.reverse, p.2 < memorySize := fun p hp => h p (List.mem_reverse.1 hp)
  generalize ds.reverse = es at hrev
  rw [show ({} : Table Word).get? name = none from rfl, Option.or_none]
  induction es with
  | nil => rfl
  | cons p es ih =>
    rw [List.map_cons, List.lookup_cons, List.lookup_cons]
    cases name == p.1 with
    | true =>
      have hp : p.2 < 65536 := hrev p List.mem_cons_self
      simp only [Option.map_some, Option.some.injEq]
      exact Nat.mod_eq_of_lt hp
    | false => exact ih fun q hq => hrev q (List.mem_cons_of_mem _ hq)

/-! ## The two passes -/

theorem layout_ok {strict : Bool} {program : List Instruction} {d : Draft} (h : layout strict program = .ok d) :
    ∃ d₁, Draft.addAll strict {} program = .ok d₁ ∧ d₁.patchAll program d₁.pending.toList = .ok d := by
  unfold layout at h
  cases h₁ : Draft.addAll strict {} program with
  | error e => rw [h₁] at h; cases h
  | ok d₁ =>
    rw [h₁] at h
    exact ⟨d₁, rfl, h⟩

theorem generate_ok {strict : Bool} {program : List Instruction} {image : Image}
    (h : generate strict program = .ok image) : ∃ d, layout strict program = .ok d ∧ image = d.image := by
  unfold generate at h
  cases hd : layout strict program with
  | error e => rw [hd] at h; cases h
  | ok d =>
    rw [hd] at h
    cases h
    exact ⟨d, rfl, rfl⟩

/-- The words of an image are those of its instructions one after the other, and the spans say where each
begins. -/
theorem generate_parts {strict : Bool} {program : List Instruction} {image : Image}
    (h : generate strict program = .ok image) :
    ∃ parts, List.Forall₂ (fun i ws => Instruction.words? image.labels i = some ws) program parts ∧
      image.words = parts.flatten ∧ image.spans = Draft.spansFrom 0 0 program := by
  obtain ⟨d, hd, rfl⟩ := generate_ok h
  obtain ⟨d₁, hadd, hpatch⟩ := layout_ok hd
  have laid := Draft.addAll_laid hadd
  have hpending : d₁.pending.toList = Draft.referencesFrom 0 0 program := laid.pending
  have hspans : d₁.spans.toList = Draft.spansFrom 0 0 program := laid.spans
  rw [hpending] at hpatch
  obtain ⟨parts, hparts, words, labels, spans⟩ :=
    Draft.patchAll_instructions [] program 0 [] d₁ d laid.sound (by simpa using laid.words) hpatch
  rw [← labels] at hparts
  simp only [Instruction.resolve_cells] at hparts
  refine ⟨parts, hparts, by simpa [Draft.image] using words, ?_⟩
  rw [Draft.image, spans, hspans]

/-- An image that is made has exactly the labels that the program defines, each at the number of words
before its last definition, and its words are the encodings of the instructions in order, every
reference holding the address of its label. -/
theorem generate_meets_description (strict : Bool) (program : List Instruction) (image : Image)
    (h : generate strict program = .ok image) :
    (∀ name, (image.labels.get? name).map UInt16.toNat =
      lastDefinition? (definitions image.labels 0 program) name) ∧
    ∃ parts, List.Forall₂ (fun i ws => Instruction.words? image.labels i = some ws) program parts ∧
      image.words = parts.flatten := by
  obtain ⟨d, hd, rfl⟩ := generate_ok h
  obtain ⟨d₁, hadd, hpatch⟩ := layout_ok hd
  have laid := Draft.addAll_laid hadd
  -- the first pass starts from an empty draft, so its addresses count from zero
  have hpending := laid.pending
  have hlabels := laid.labels
  rw [show ({} : Draft).words.size = 0 from rfl] at hpending hlabels
  rw [hpending] at hpatch
  obtain ⟨parts, hparts, words, labels, -⟩ :=
    Draft.patchAll_instructions [] program 0 [] d₁ d laid.sound (by simpa using laid.words) hpatch
  rw [← labels] at hparts hlabels
  simp only [Instruction.resolve_cells] at hparts
  -- the words follow from the second pass, the labels from the first, which no patch changes
  refine ⟨fun name => ?_, parts, hparts, by simpa [Draft.image] using words⟩
  have hlow := laid.low
  rw [show ({} : Draft).words.size = 0 from rfl, definitions_flatMap_cells hparts] at hlow
  rw [definitions_flatMap_cells hparts] at hlabels
  rw [show d.image.labels = d.labels from rfl]
  nth_rewrite 1 [hlabels]
  exact Table.defineAll_get hlow name

/-- A label defined twice, one inside data, and references before and after them. -/
theorem generate_meets_description_redefined :
    let program : List Instruction :=
      [.label (Text.ofString "a"), .basic .set (.register .pc) (.immediate (.label (Text.ofString "b"))),
        .data [.word 7, .label (Text.ofString "b"), .string (Text.ofString "hi")], .label (Text.ofString "a"),
        .special .jsr (.immediate (.label (Text.ofString "a")))]
    ∃ image, generate false program = .ok image ∧ image.words = [0x7f81, 3, 7, 104, 105, 0x7c20, 5] ∧
      (∀ name, (image.labels.get? name).map UInt16.toNat =
        lastDefinition? (definitions image.labels 0 program) name) ∧
      ∃ parts, List.Forall₂ (fun i ws => Instruction.words? image.labels i = some ws) program parts ∧
        image.words = parts.flatten := by
  intro program
  have himage : generate false program = .ok ⟨[0x7f81, 3, 7, 104, 105, 0x7c20, 5],
      ⟨[(Text.ofString "a", 5), (Text.ofString "b", 3)]⟩,
      [⟨0, 0, 0⟩, ⟨1, 0, 2⟩, ⟨2, 2, 3⟩, ⟨3, 5, 0⟩, ⟨4, 5, 2⟩]⟩ := rfl
  exact ⟨_, himage, rfl, generate_meets_description false program _ himage⟩

end Dcpu16
