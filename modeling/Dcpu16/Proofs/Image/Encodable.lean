/-
Which instructions can be encoded, how many words they take and where they define labels, said without
encoding them. An instruction is encodable exactly if none of its cells is a fault, and then its cells take
as many words as said here and define the labels that stand in it.
-/
import Dcpu16.Proofs.Image.Encoded

namespace Dcpu16

/-! ## Encodable nodes -/

/-- The registers that can point to memory. -/
def Register.isPointer : Register → Bool
  | .general _ | .sp => true
  | .pc | .ex | .invalid _ => false

/-- The machine has a code for the operand, in the positions that take its kind. -/
def Operand.encodable : Operand → Bool
  | .register r => r.valid
  | .indirect r | .offset r _ => r.isPointer
  | _ => true

def Datum.encodable : Datum → Bool
  | .missing | .foreign _ => false
  | _ => true

/-- The instruction can be encoded, wherever it stands. -/
def Instruction.encodable : Instruction → Bool
  | .missing | .foreign _ => false
  | .basic op b a => op.valid && (b.isDestination && b.encodable) && (a.isValue && a.encodable)
  | .special op a => op.valid && (a.isValue && a.encodable)
  | .label _ => true
  | .data items => items.all Datum.encodable

/-! ## Sizes -/

/-- The words that an operand takes after that of its instruction. -/
def Operand.extraWords : Operand → Nat
  | .offset _ _ | .memory _ | .immediate (.label _) => 1
  | .immediate (.number w) => if w ≤ 30 ∨ w = 0xffff then 0 else 1
  | _ => 0

def Datum.size : Datum → Nat
  | .word _ => 1
  | .string t => (Utf8.decode t).length
  | _ => 0

/-- The words that an encodable instruction takes. -/
def Instruction.size : Instruction → Nat
  | .basic _ b a => 1 + a.extraWords + b.extraWords
  | .special _ a => 1 + a.extraWords
  | .data items => items.foldr (fun x n => x.size + n) 0
  | _ => 0

/-- The words that a program takes. -/
def programSize : List Instruction → Nat
  | [] => 0
  | i :: is => i.size + programSize is

/-- The labels that a program defines from an address on, in order, each with the address where it stands. -/
def labelPositions (start : Nat) : List Instruction → List (Text × Nat)
  | [] => []
  | i :: is => i.definitions start ++ labelPositions (start + i.size) is

/-- The names that a program defines, in order. -/
def definedNames (program : List Instruction) : List Text := (labelPositions 0 program).map (·.1)

/-! ## Operands -/

theorem Register.field_ok_iff {r : Register} : (∃ f, r.field = .ok f) ↔ r.valid = true := by
  cases r <;> simp [field, code?, valid]

theorem Register.indirectField_ok_iff {r : Register} : (∃ f, r.indirectField = .ok f) ↔ r.isPointer = true := by
  cases r <;> simp [indirectField, indirectCode?, isPointer]

theorem Register.offsetField_ok_iff {r : Register} {l : Literal} :
    (∃ f, r.offsetField l = .ok f) ↔ r.isPointer = true := by
  cases r <;> simp [offsetField, offsetCode?, isPointer]

namespace Decode

/-- The operands that a position takes by their kind. -/
def Position.takes : Position → Operand → Bool
  | .value => Operand.isValue
  | .destination => Operand.isDestination

variable {p : Position} {o : Operand} {f : Field}

theorem encode_ok_iff : (∃ f, p.encode o = .ok f) ↔ (p.takes o && o.encodable) = true := by
  cases o with
  | register r =>
    rw [encode_register, Register.field_ok_iff]
    cases p <;> rfl
  | indirect r =>
    rw [encode_indirect, Register.indirectField_ok_iff]
    cases p <;> rfl
  | offset r l =>
    rw [encode_offset, Register.offsetField_ok_iff]
    cases p <;> rfl
  | _ =>
    cases p <;> simp [Position.encode, Operand.encodeValue, Operand.encodeDestination, Position.takes,
      Operand.isValue, Operand.isDestination, Operand.encodable]

theorem trailing_length (h : p.encode o = .ok f) : f.trailing.length = o.extraWords := by
  rw [Field.trailing, encode_next h]
  cases o with
  | immediate l =>
    cases l with
    | label name => rfl
    | number w =>
      by_cases hw : w ≤ 30 ∨ w = 0xffff <;>
        simp [Operand.trailing?, Literal.field, Word.inlineCode?, Operand.extraWords, hw]
  | _ => rfl

end Decode

/-! ## Instructions -/

theorem BasicOp.code_isSome (op : BasicOp) : op.code?.isSome = op.valid := by cases op <;> rfl

theorem SpecialOp.code_isSome (op : SpecialOp) : op.code?.isSome = op.valid := by cases op <;> rfl

namespace Cell

theorem slots_words (ws : List Word) : slots (ws.map .word) = ws := by
  induction ws with
  | nil => rfl
  | cons w ws ih => simp [slots, ih]

theorem sound_trailing (f : Field) (e : ImageError) : fault e ∉ f.trailing := by
  rw [Field.trailing]
  rcases f.next with - | (w | name) <;> simp [Literal.cell]

/-- A trailing literal takes one word. -/
theorem slots_trailing (f : Field) : (slots f.trailing).length = f.trailing.length := by
  rw [Field.trailing]
  rcases f.next with - | (w | name) <;> rfl

end Cell

namespace Datum

theorem sound_iff {x : Datum} : (∀ e, Cell.fault e ∉ x.cells) ↔ x.encodable = true := by
  cases x <;> simp [cells, encodable]

theorem slots_length (x : Datum) : (Cell.slots x.cells).length = x.size := by
  cases x with
  | string t => rw [cells, Cell.slots_words, stringWords, List.length_map, size]
  | _ => rfl

end Datum

namespace Instruction

/-- An instruction is encodable exactly if it has no fault. -/
theorem sound_iff {i : Instruction} : (∀ e, Cell.fault e ∉ i.cells) ↔ i.encodable = true := by
  cases i with
  | basic op b a =>
    have hop := op.code_isSome
    rcases basicCells_cases op b a with ⟨code, value, dest, hcode, hvalue, hdest, hcells⟩ | ⟨e, hcells, hwhy⟩
    · have ha : (a.isValue && a.encodable) = true := (Decode.encode_ok_iff (p := .value)).1 ⟨value, hvalue⟩
      have hb : (b.isDestination && b.encodable) = true :=
        (Decode.encode_ok_iff (p := .destination)).1 ⟨dest, hdest⟩
      rw [hcode, Option.isSome_some] at hop
      exact ⟨fun _ => by rw [encodable, ← hop, ha, hb]; rfl,
        fun _ e => by simp [cells, hcells, Cell.sound_trailing]⟩
    · refine ⟨fun h => absurd (by simp [cells, hcells]) (h e), fun h => ?_⟩
      rw [encodable, Bool.and_eq_true, Bool.and_eq_true] at h
      obtain ⟨⟨hvalid, hb⟩, ha⟩ := h
      obtain ⟨value, hvalue⟩ := (Decode.encode_ok_iff (p := .value)).2 ha
      obtain ⟨dest, hdest⟩ := (Decode.encode_ok_iff (p := .destination)).2 hb
      rcases hwhy with ⟨hcode, -⟩ | ⟨err, herr | herr, -⟩
      · rw [hcode, hvalid] at hop
        cases hop
      · cases hvalue.symm.trans herr
      · cases hdest.symm.trans herr
  | special op a =>
    have hop := op.code_isSome
    rcases specialCells_cases op a with ⟨code, value, hcode, hvalue, hcells⟩ | ⟨e, hcells, hwhy⟩
    · have ha : (a.isValue && a.encodable) = true := (Decode.encode_ok_iff (p := .value)).1 ⟨value, hvalue⟩
      rw [hcode, Option.isSome_some] at hop
      exact ⟨fun _ => by rw [encodable, ← hop, ha]; rfl, fun _ e => by simp [cells, hcells, Cell.sound_trailing]⟩
    · refine ⟨fun h => absurd (by simp [cells, hcells]) (h e), fun h => ?_⟩
      rw [encodable, Bool.and_eq_true] at h
      obtain ⟨hvalid, ha⟩ := h
      obtain ⟨value, hvalue⟩ := (Decode.encode_ok_iff (p := .value)).2 ha
      rcases hwhy with ⟨hcode, -⟩ | ⟨err, herr, -⟩
      · rw [hcode, hvalid] at hop
        cases hop
      · cases hvalue.symm.trans herr
  | data items =>
    simp only [cells, encodable, List.all_eq_true, ← Datum.sound_iff, List.mem_flatMap, not_exists, not_and]
    exact ⟨fun h x hx e => h e x hx, fun h e x hx => h x hx e⟩
  | label name => simp [cells, encodable]
  | missing => simp [cells, encodable]
  | foreign name => simp [cells, encodable]

theorem slots_length {i : Instruction} (h : i.encodable = true) : (Cell.slots i.cells).length = i.size := by
  have hsound := sound_iff.2 h
  cases i with
  | basic op b a =>
    rcases basicCells_cases op b a with ⟨code, value, dest, -, hvalue, hdest, hcells⟩ | ⟨e, hcells, -⟩
    · have ha := Decode.trailing_length (p := .value) hvalue
      have hb := Decode.trailing_length (p := .destination) hdest
      simp only [cells, hcells, Cell.slots, Cell.slots_append, List.length_cons, List.length_append,
        Cell.slots_trailing, ha, hb, size]
      omega
    · exact absurd (by simp [cells, hcells]) (hsound e)
  | special op a =>
    rcases specialCells_cases op a with ⟨code, value, -, hvalue, hcells⟩ | ⟨e, hcells, -⟩
    · have ha := Decode.trailing_length (p := .value) hvalue
      simp only [cells, hcells, Cell.slots, List.length_cons, Cell.slots_trailing, ha, size]
      omega
    · exact absurd (by simp [cells, hcells]) (hsound e)
  | data items =>
    clear h hsound
    rw [cells, size]
    induction items with
    | nil => rfl
    | cons x xs ih =>
      rw [List.flatMap_cons, Cell.slots_append, List.length_append, Datum.slots_length, ih, List.foldr_cons]
  | label name => rfl
  | missing => rfl
  | foreign name => rfl

end Instruction

/-! ## Faults -/

namespace Instruction

/-- The operands of an operation with their positions, in the order of their trailing words. -/
def operands : Instruction → List (Decode.Position × Operand)
  | .basic _ b a => [(.value, a), (.destination, b)]
  | .special _ a => [(.value, a)]
  | _ => []

/-- The instruction is of a known kind, and its operation is one of the machine's. -/
def isKnown : Instruction → Bool
  | .missing | .foreign _ => false
  | .basic op _ _ => op.valid
  | .special op _ => op.valid
  | .label _ | .data _ => true

/-- What can be wrong with an instruction: it is not known, an operand cannot be encoded, or a data item is none. -/
theorem fault_cells {i : Instruction} {e : ImageError} (h : Cell.fault e ∈ i.cells) :
    (i.isKnown = false ∧ e = .instructionInvalid) ∨
    (∃ o ∈ i.operands, ∃ err, o.1.encode o.2 = .error err ∧ e = .operand err) ∨
    ∃ items, i = .data items ∧ (∃ x ∈ items, x.encodable = false) ∧ e = .datumInvalid := by
  cases i with
  | basic op b a =>
    have hop := op.code_isSome
    rw [cells] at h
    rcases basicCells_cases op b a with ⟨code, value, dest, -, -, -, hcells⟩ | ⟨e', hcells, hwhy⟩
    · simp [hcells, Cell.sound_trailing] at h
    · simp only [hcells, List.mem_singleton, Cell.fault.injEq] at h
      subst h
      rcases hwhy with ⟨hcode, rfl⟩ | ⟨err, herr | herr, rfl⟩
      · rw [hcode] at hop
        exact .inl ⟨hop.symm, rfl⟩
      · exact .inr (.inl ⟨(.value, a), by simp [operands], err, herr, rfl⟩)
      · exact .inr (.inl ⟨(.destination, b), by simp [operands], err, herr, rfl⟩)
  | special op a =>
    have hop := op.code_isSome
    rw [cells] at h
    rcases specialCells_cases op a with ⟨code, value, -, -, hcells⟩ | ⟨e', hcells, hwhy⟩
    · simp [hcells, Cell.sound_trailing] at h
    · simp only [hcells, List.mem_singleton, Cell.fault.injEq] at h
      subst h
      rcases hwhy with ⟨hcode, rfl⟩ | ⟨err, herr, rfl⟩
      · rw [hcode] at hop
        exact .inl ⟨hop.symm, rfl⟩
      · exact .inr (.inl ⟨(.value, a), by simp [operands], err, herr, rfl⟩)
  | data items =>
    obtain ⟨x, hx, he⟩ := List.mem_flatMap.1 h
    refine .inr (.inr ⟨items, rfl, ?_⟩)
    cases x with
    | missing =>
      cases List.mem_singleton.1 he
      exact ⟨⟨.missing, hx, rfl⟩, rfl⟩
    | foreign w =>
      cases List.mem_singleton.1 he
      exact ⟨⟨.foreign w, hx, rfl⟩, rfl⟩
    | label name => simp [Datum.cells] at he
    | word w => simp [Datum.cells] at he
    | string t => simp [Datum.cells] at he
  | label name => simp [cells] at h
  | missing =>
    cases List.mem_singleton.1 h
    exact .inl ⟨rfl, rfl⟩
  | foreign name =>
    cases List.mem_singleton.1 h
    exact .inl ⟨rfl, rfl⟩

end Instruction

/-! ## Programs -/

/-- The cells of encodable instructions take as many words as the program. -/
theorem slots_program {is : List Instruction} (h : ∀ i ∈ is, i.encodable = true) :
    (Cell.slots (is.flatMap Instruction.cells)).length = programSize is := by
  induction is with
  | nil => rfl
  | cons i is ih =>
    rw [List.flatMap_cons, Cell.slots_append, List.length_append, Instruction.slots_length (h i List.mem_cons_self),
      ih fun j hj => h j (List.mem_cons_of_mem i hj), programSize]

/-- The cells of encodable instructions define the labels of the program where they stand. -/
theorem definitions_program {is : List Instruction} (h : ∀ i ∈ is, i.encodable = true) (start : Nat) :
    Cell.definitions start (is.flatMap Instruction.cells) = labelPositions start is := by
  induction is generalizing start with
  | nil => rfl
  | cons i is ih =>
    rw [List.flatMap_cons, Cell.definitions_append, Instruction.definitions_cells,
      Instruction.slots_length (h i List.mem_cons_self), ih fun j hj => h j (List.mem_cons_of_mem i hj),
      labelPositions]

end Dcpu16
