/-
What can still be wrong with a source that was read. Its instructions are well-formed, so that an image is
refused only where a register that cannot point to memory is used as a pointer, where there is no room, and for
the labels; and the fault is reported with the line of its instruction.
-/
import Dcpu16.Proofs.Image.Verdict
import Dcpu16.Proofs.Source.Accepted

namespace Dcpu16

/-! ## Names of well-formed instructions -/

/-- A label that is referred to has the name of no register, in any letter case. -/
theorem Literal.upper_ne_register {l : Literal} (h : l.wellFormed = true) :
    ∀ name ∈ l.references, ∀ r : Register, r.valid = true → Text.upper name ≠ Text.upper r.name := by
  cases l with
  | number w => simp [references]
  | label x =>
    intro name hname r hr heq
    rw [references, List.mem_singleton] at hname
    subst hname
    simp only [wellFormed, Bool.and_eq_true] at h
    rw [heq, Register.ofName_name r (Register.mem_all hr)] at h
    cases h.2

theorem Operand.upper_ne_register {o : Operand} (h : o.wellFormed = true) :
    ∀ name ∈ o.references, ∀ r : Register, r.valid = true → Text.upper name ≠ Text.upper r.name := by
  cases o with
  | offset r l =>
    simp only [wellFormed, Bool.and_eq_true] at h
    exact l.upper_ne_register h.2
  | memory l => exact l.upper_ne_register h
  | immediate l =>
    simp only [wellFormed, Bool.and_eq_true] at h
    exact l.upper_ne_register h.1
  | missing | foreign | register | indirect | push | pop => simp [references]

/-! ## Faults of well-formed instructions -/

theorem Decode.encode_error {p : Position} {o : Operand} {err : OperandError} (htakes : p.takes o = true)
    (hwf : o.wellFormed = true) (h : p.encode o = .error err) :
    ∃ r offset, (r = .pc ∨ r = .ex) ∧ err = .indirect r offset := by
  cases o with
  | missing => cases hwf
  | foreign r => cases hwf
  | register r =>
    obtain ⟨f, hf⟩ := Register.field_ok_iff.2 hwf
    rw [encode_register, hf] at h
    cases h
  | indirect r =>
    rw [encode_indirect] at h
    cases r with
    | general n => cases h
    | sp => cases h
    | pc => cases h; exact ⟨.pc, false, .inl rfl, rfl⟩
    | ex => cases h; exact ⟨.ex, false, .inr rfl, rfl⟩
    | invalid n => cases hwf
  | offset r l =>
    rw [encode_offset] at h
    cases r with
    | general n => cases h
    | sp => cases h
    | pc => cases h; exact ⟨.pc, true, .inl rfl, rfl⟩
    | ex => cases h; exact ⟨.ex, true, .inr rfl, rfl⟩
    | invalid n => cases hwf
  | memory l =>
    rw [encode_memory] at h
    cases h
  | immediate l =>
    cases p with
    | value => cases h
    | destination => cases htakes
  | push =>
    cases p with
    | value => cases htakes
    | destination => cases h
  | pop =>
    cases p with
    | value => cases h
    | destination => cases htakes

namespace Instruction

theorem isKnown_of_wellFormed {i : Instruction} (h : i.wellFormed = true) : i.isKnown = true := by
  cases i with
  | basic op b a =>
    simp only [wellFormed, Bool.and_eq_true] at h
    exact h.1.1
  | special op a =>
    simp only [wellFormed, Bool.and_eq_true] at h
    exact h.1
  | label name => rfl
  | data items => rfl
  | missing => cases h
  | foreign name => cases h

theorem operands_of_wellFormed {i : Instruction} (h : i.wellFormed = true) :
    ∀ o ∈ i.operands, o.1.takes o.2 = true ∧ o.2.wellFormed = true := by
  cases i with
  | basic op b a =>
    simp only [wellFormed, Bool.and_eq_true] at h
    intro o ho
    simp only [operands, List.mem_cons, List.not_mem_nil, or_false] at ho
    rcases ho with rfl | rfl
    · exact h.2
    · exact h.1.2
  | special op a =>
    simp only [wellFormed, Bool.and_eq_true] at h
    intro o ho
    rw [operands, List.mem_singleton] at ho
    subst ho
    exact h.2
  | label name => simp [operands]
  | data items => simp [operands]
  | missing => cases h
  | foreign name => cases h

theorem upper_ne_register {i : Instruction} (h : i.wellFormed = true) :
    ∀ name ∈ i.references, ∀ r : Register, r.valid = true → Text.upper name ≠ Text.upper r.name := by
  cases i with
  | basic op b a =>
    simp only [wellFormed, Bool.and_eq_true] at h
    intro name hname
    rcases List.mem_append.1 hname with hb | ha
    · exact b.upper_ne_register h.1.2.2 name hb
    · exact a.upper_ne_register h.2.2 name ha
  | special op a =>
    simp only [wellFormed, Bool.and_eq_true] at h
    exact a.upper_ne_register h.2.2
  | missing | foreign | label | data => simp [references]

/-- The one fault of a well-formed instruction: a register that cannot point to memory is used as a pointer. -/
theorem fault_of_wellFormed {i : Instruction} {e : ImageError} (hwf : i.wellFormed = true)
    (h : Cell.fault e ∈ i.cells) : ∃ r offset, (r = .pc ∨ r = .ex) ∧ e = .operand (.indirect r offset) := by
  rcases fault_cells h with ⟨hknown, -⟩ | ⟨o, ho, err, herr, rfl⟩ | ⟨items, rfl, ⟨x, hx, hnot⟩, -⟩
  · rw [isKnown_of_wellFormed hwf] at hknown
    cases hknown
  · obtain ⟨htakes, howf⟩ := operands_of_wellFormed hwf o ho
    obtain ⟨r, offset, hr, rfl⟩ := Decode.encode_error htakes howf herr
    exact ⟨r, offset, hr, rfl⟩
  · simp only [wellFormed, Bool.and_eq_true, List.all_eq_true] at hwf
    have hxwf := hwf.2 x hx
    cases x with
    | missing => cases hxwf
    | foreign name => cases hxwf
    | label name => cases hnot
    | word w => cases hnot
    | string t => cases hnot

/-- Why the first pass can stop at a well-formed instruction. -/
theorem stops_of_wellFormed {strict : Bool} {i : Instruction} {e : ImageError} (hwf : i.wellFormed = true)
    (h : Draft.Stops strict i.cells e) :
    (∃ r offset, (r = .pc ∨ r = .ex) ∧ e = .operand (.indirect r offset)) ∨ e = .tooLarge ∨
      (strict = true ∧ ∃ name, e = .labelDuplicate name) := by
  cases h with
  | fault mem => exact .inl (fault_of_wellFormed hwf mem)
  | tooLarge => exact .inr (.inl rfl)
  | duplicate hs name => exact .inr (.inr ⟨hs, name, rfl⟩)

end Instruction

/-! ## Faults of sources -/

theorem Source.read_ofLocated [Evaluator] {e : Equates} {input : Input} {s : Source}
    (h : (read e input).result = .ok s) : ∃ ls, s = Source.ofLocated ls := by
  unfold read at h
  dsimp only at h
  split at h
  · cases h
  · split at h
    · cases h
    · cases h
      exact ⟨_, rfl⟩

/-- Every instruction of a source that was read has a place. -/
theorem Source.locate_ofLocated {ls : List Located} {e : InstructionError} {i : Instruction}
    (h : (Source.ofLocated ls).instructions[e.index]? = some i) :
    ∃ l, ls[e.index]? = some l ∧
      (Source.ofLocated ls).locate e = .located ⟨l.lineNumber, l.line, .image e.error⟩ := by
  rw [ofLocated, List.getElem?_map] at h
  obtain ⟨l, hl, -⟩ := Option.map_eq_some_iff.1 h
  exact ⟨l, hl, by simp [locate, ofLocated, hl]⟩

theorem Assembler.generate_error {a : Assembler} {s : Source} {err : AssemblyError}
    (h : (a.generate s).result = .error err) :
    ∃ e, Dcpu16.generate a.strict s.instructions = .error e ∧ err = s.locate e := by
  unfold Assembler.generate at h
  unfold Dcpu16.generate
  split at h
  · cases h
  · rename_i halt _
    cases h
    exact ⟨halt.error, by simp [*], rfl⟩

/-- Whatever the text, the predefines and the evaluator, a source that is read has well-formed instructions, which
refer to no label that has the name of a register. So its image is refused, by any assembler, only for a pointer in
a register that cannot be one, for its size, for a label that is missing, and in strict mode for one that is defined
twice. -/
theorem Assembler.generate_error_of_parse [Evaluator] (a : Assembler) (input : Input) (s : Source)
    (h : (a.parse input).1.result = .ok s) :
    (∀ i ∈ s.instructions, i.wellFormed = true ∧
      ∀ name ∈ i.references, ∀ r : Register, r.valid = true → Text.upper name ≠ Text.upper r.name) ∧
    ∀ (b : Assembler) (err : AssemblyError), (b.generate s).result = .error err →
      ∃ n line cause, err = .located ⟨n, line, .image cause⟩ ∧
        ((∃ r offset, (r = .pc ∨ r = .ex) ∧ cause = .operand (.indirect r offset)) ∨ cause = .tooLarge ∨
          (∃ name, cause = .labelMissing name) ∨ (b.strict = true ∧ ∃ name, cause = .labelDuplicate name)) := by
  have hwf : ∀ i ∈ s.instructions, i.wellFormed = true := Source.read_wellFormed h
  refine ⟨fun i hi => ⟨hwf i hi, i.upper_ne_register (hwf i hi)⟩, fun b err herr => ?_⟩
  obtain ⟨ls, rfl⟩ := Source.read_ofLocated h
  obtain ⟨e, he, rfl⟩ := Assembler.generate_error herr
  obtain ⟨hat, hcause⟩ := Dcpu16.generate_error he
  obtain ⟨l, -, hlocated⟩ := Source.locate_ofLocated hat
  refine ⟨l.lineNumber, l.line, e.error, hlocated, ?_⟩
  rcases hcause with hstops | hmissing
  · rcases Instruction.stops_of_wellFormed (hwf _ (List.mem_of_getElem? hat)) hstops with hp | hsize | hdup
    · exact .inl hp
    · exact .inr (.inl hsize)
    · exact .inr (.inr (.inr hdup))
  · exact .inr (.inr (.inl hmissing))

/-- An evaluator that always answers gives the offset of a pointer in a register that cannot be one. The label is
missing too, which is not what is reported. -/
theorem Assembler.generate_error_of_parse_pointer :
    let always : Evaluator := ⟨fun _ _ => some 8⟩
    let a := ({} : Assembler).predefine (Text.ofString "n") (Text.ofString "2")
    let line := Text.ofString "SET [PC+$(n*4)], loop"
    let i : Instruction := .basic .set (.offset .pc (.number 8)) (.immediate (.label (Text.ofString "loop")))
    let s : Source := ⟨[i], [1], [line]⟩
    (@Assembler.parse always a ⟨line, none⟩).1.result = .ok s ∧ i.wellFormed = true ∧
      (a.generate s).result = .error (.located ⟨1, line, .image (.operand (.indirect .pc true))⟩) ∧
      ∀ (b : Assembler) (e : InstructionError), (b.generate s).result ≠ .error (.bare e) := by
  intro always a line i s
  have hparse : (@Assembler.parse always a ⟨line, none⟩).1.result = .ok s := ok_of_toOption (by decide +kernel)
  obtain ⟨hwf, hcause⟩ := @Assembler.generate_error_of_parse always a ⟨line, none⟩ s hparse
  refine ⟨hparse, (hwf i List.mem_cons_self).1, rfl, fun b e herr => ?_⟩
  obtain ⟨_, _, _, hlocated, -⟩ := hcause b _ herr
  cases hlocated

end Dcpu16
