/-
What is encoded decodes to itself. The field of an operand decodes, with its trailing word, to the operand
in which a label has become its address; so do the words of an instruction, whatever follows them. A
canonical decoder does the same as long as there is no label: the address of a label is always written in
the long form, which it takes for a number only if that does not fit a code.
-/
import Dcpu16.Proofs.Image.Codec
import Dcpu16.Proofs.Image.Layout
import Dcpu16.Proofs.Instruction.WellFormed

namespace Dcpu16

/-! ## Labels as numbers -/

/-- The literal with the address of its label in place of the name. -/
def Literal.resolve? (labels : Table Word) (l : Literal) : Option Literal := (l.word? labels).map .number

def Operand.resolve? (labels : Table Word) : Operand → Option Operand
  | .offset r l => (l.resolve? labels).map (.offset r)
  | .memory l => (l.resolve? labels).map .memory
  | .immediate l => (l.resolve? labels).map .immediate
  | o => some o

/-- The instruction with addresses in place of the names that its operands refer to. -/
def Instruction.resolve? (labels : Table Word) : Instruction → Option Instruction
  | .basic op b a => (b.resolve? labels).bind fun b => (a.resolve? labels).map fun a => .basic op b a
  | .special op a => (a.resolve? labels).map (.special op)
  | i => some i

/-- An instruction of the machine. -/
def Instruction.isOperation : Instruction → Bool
  | .basic .. | .special .. => true
  | _ => false

theorem Literal.resolve_plain {l : Literal} (h : l.references = []) (labels : Table Word) :
    l.resolve? labels = some l := by
  cases l with
  | number w => rfl
  | label name => cases h

theorem Operand.resolve_plain {o : Operand} (h : o.references = []) (labels : Table Word) :
    o.resolve? labels = some o := by
  cases o with
  | offset r l => simp [resolve?, Literal.resolve_plain (l := l) h]
  | memory l => simp [resolve?, Literal.resolve_plain (l := l) h]
  | immediate l => simp [resolve?, Literal.resolve_plain (l := l) h]
  | _ => rfl

theorem Instruction.resolve_plain {i : Instruction} (h : i.references = []) (labels : Table Word) :
    i.resolve? labels = some i := by
  cases i with
  | basic op b a =>
    obtain ⟨hb, ha⟩ := List.append_eq_nil_iff.1 h
    simp [resolve?, Operand.resolve_plain hb, Operand.resolve_plain ha]
  | special op a => simp [resolve?, Operand.resolve_plain (o := a) h]
  | _ => rfl

/-! ## Cells of an operation -/

namespace Instruction

/-- A basic instruction becomes its word and the trailing words of its operands, unless the operation or an
operand cannot be encoded. -/
theorem basicCells_cases (op : BasicOp) (b a : Operand) :
    (∃ code value dest, op.code? = some code ∧ a.encodeValue = .ok value ∧ b.encodeDestination = .ok dest ∧
      basicCells op b a = .word (Word.packBasic code dest.code value.code) :: (value.trailing ++ dest.trailing)) ∨
    ∃ e, basicCells op b a = [.fault e] ∧ (op.code? = none ∧ e = .instructionInvalid ∨
      ∃ err, (a.encodeValue = .error err ∨ b.encodeDestination = .error err) ∧ e = .operand err) := by
  unfold basicCells
  cases op.code? with
  | none => exact .inr ⟨_, rfl, .inl ⟨rfl, rfl⟩⟩
  | some code =>
    cases a.encodeValue with
    | error err => exact .inr ⟨_, rfl, .inr ⟨err, .inl rfl, rfl⟩⟩
    | ok value =>
      cases b.encodeDestination with
      | error err => exact .inr ⟨_, rfl, .inr ⟨err, .inr rfl, rfl⟩⟩
      | ok dest => exact .inl ⟨code, value, dest, rfl, rfl, rfl, rfl⟩

theorem specialCells_cases (op : SpecialOp) (a : Operand) :
    (∃ code value, op.code? = some code ∧ a.encodeValue = .ok value ∧
      specialCells op a = .word (Word.packSpecial code value.code) :: value.trailing) ∨
    ∃ e, specialCells op a = [.fault e] ∧ (op.code? = none ∧ e = .instructionInvalid ∨
      ∃ err, a.encodeValue = .error err ∧ e = .operand err) := by
  unfold specialCells
  cases op.code? with
  | none => exact .inr ⟨_, rfl, .inl ⟨rfl, rfl⟩⟩
  | some code =>
    cases a.encodeValue with
    | error err => exact .inr ⟨_, rfl, .inr ⟨err, rfl, rfl⟩⟩
    | ok value => exact .inl ⟨code, value, rfl, rfl, rfl⟩

end Instruction

/-! ## References of cells -/

/-- The labels that an instruction refers to in the order of its words, the value's before the
destination's. -/
def Instruction.emitted : Instruction → List Text
  | .basic _ b a => a.references ++ b.references
  | .special _ a => a.references
  | _ => []

theorem Instruction.mem_emitted {i : Instruction} {name : Text} : name ∈ i.emitted ↔ name ∈ i.references := by
  cases i with
  | basic op b a => simp [emitted, references, or_comm]
  | _ => rfl

/-- The literal of an operand's trailing word, if it has one. -/
def Operand.trailing? : Operand → Option Literal
  | .offset _ l | .memory l => some l
  | .immediate l => l.field.next
  | _ => none

theorem Decode.encode_next {p : Position} {o : Operand} {f : Field} (h : p.encode o = .ok f) :
    f.next = o.trailing? := by
  cases o with
  | register r =>
    rw [encode_register, Register.field] at h
    split at h <;> cases h
    rfl
  | indirect r =>
    rw [encode_indirect, Register.indirectField] at h
    split at h <;> cases h
    rfl
  | offset r l =>
    rw [encode_offset, Register.offsetField] at h
    split at h <;> cases h
    rfl
  | _ => cases p <;> cases h <;> rfl

/-- The cell of a field's literal refers to the label of the operand. -/
theorem Field.references_trailing {p : Decode.Position} {o : Operand} {f : Field} (h : p.encode o = .ok f)
    (n start : Nat) : Cell.references n start f.trailing = o.references.map fun name => ⟨name, start, n⟩ := by
  rw [Field.trailing, Decode.encode_next h]
  cases o with
  | offset r l => cases l <;> rfl
  | memory l => cases l <;> rfl
  | immediate l =>
    cases l with
    | label name => rfl
    | number w =>
      rw [Operand.trailing?, Literal.field]
      cases w.inlineCode? <;> rfl
  | _ => rfl

theorem Cell.references_words (n start : Nat) (ws : List Word) : references n start (ws.map .word) = [] := by
  induction ws generalizing start with
  | nil => rfl
  | cons w ws ih => exact ih (start + 1)

theorem Datum.references_cells (n start : Nat) (xs : List Datum) : Cell.references n start (xs.flatMap cells) = [] := by
  induction xs generalizing start with
  | nil => rfl
  | cons x xs ih =>
    rw [List.flatMap_cons, Cell.references_append, ih, List.append_nil]
    cases x with
    | string t => exact Cell.references_words n start _
    | _ => rfl

/-- The references among the cells of an instruction are to its labels, in the order of its words. -/
theorem Instruction.references_cells {i : Instruction} (h : ∀ e, Cell.fault e ∉ i.cells) (n start : Nat) :
    (Cell.references n start i.cells).map (fun r => (r.label, r.instruction)) = i.emitted.map (·, n) := by
  cases i with
  | basic op b a =>
    rcases basicCells_cases op b a with ⟨code, value, dest, -, hvalue, hdest, hcells⟩ | ⟨e, hcells, -⟩
    · have ha := Field.references_trailing (p := .value) hvalue
      have hb := Field.references_trailing (p := .destination) hdest
      simp [cells, hcells, Cell.references, Cell.references_append, ha, hb, emitted, Function.comp_def]
    · exact absurd (by simp [cells, hcells]) (h e)
  | special op a =>
    rcases specialCells_cases op a with ⟨code, value, -, hvalue, hcells⟩ | ⟨e, hcells, -⟩
    · have ha := Field.references_trailing (p := .value) hvalue
      simp [cells, hcells, Cell.references, ha, emitted, Function.comp_def]
    · exact absurd (by simp [cells, hcells]) (h e)
  | data items => rw [cells, Datum.references_cells]; rfl
  | label name => rfl
  | missing => rfl
  | foreign name => rfl

/-! ## Fields of a packed word -/

namespace Word

variable {code b a : Word}

theorem lowField_packBasic (hc : code.toNat < 32) (hb : b.toNat < 32) (ha : a.toNat < 64) :
    (packBasic code b a).lowField = code := by
  apply UInt16.toNat_inj.mp
  rw [lowField_toNat, packBasic_toNat hc hb ha]
  omega

theorem middleField_packBasic (hc : code.toNat < 32) (hb : b.toNat < 32) (ha : a.toNat < 64) :
    (packBasic code b a).middleField = b := by
  apply UInt16.toNat_inj.mp
  rw [middleField_toNat, packBasic_toNat hc hb ha]
  omega

theorem highField_packBasic (hc : code.toNat < 32) (hb : b.toNat < 32) (ha : a.toNat < 64) :
    (packBasic code b a).highField = a := by
  apply UInt16.toNat_inj.mp
  rw [highField_toNat, packBasic_toNat hc hb ha]
  omega

end Word

/-! ## Operations -/

theorem BasicOp.ofCode_code {op : BasicOp} {c : Word} (h : op.code? = some c) :
    ofCode? c = some op ∧ c ≠ 0 ∧ c.toNat < 32 := by
  cases op with
  | invalid n => cases h
  | _ => cases h; decide

theorem SpecialOp.ofCode_code {op : SpecialOp} {c : Word} (h : op.code? = some c) :
    ofCode? c = some op ∧ c.toNat < 32 := by
  cases op with
  | invalid n => cases h
  | _ => cases h; decide

/-! ## Operands -/

namespace Decode

/-- Encoding and decoding: a field has a code of its position, and decodes with its trailing word to the
operand `o'` that the encoded one stands for. -/
structure Recovered (canonical : Bool) (p : Position) (f : Field) (ws : List Word) (o' : Operand) : Prop where
  below : f.code.toNat < p.limit
  decoded : ∀ rest, operand canonical p f.code (ws ++ rest) = some (o', ws.length)

variable {canonical : Bool} {p : Position} {f : Field} {labels : Table Word} {ws : List Word}

theorem register_decoded {r : Register} (hf : r.field = .ok f) (hw : f.trailing? labels = some ws) (rest : List Word) :
    operand canonical p f.code (ws ++ rest) = some (.register r, ws.length) := by
  have hgeneral : ∀ n : Fin 8, n.val.toUInt16 < 0x08 ∧ general n.val.toUInt16 = .general n := by decide
  cases r with
  | general n =>
    cases hf
    cases hw
    obtain ⟨hcode, hreg⟩ := hgeneral n
    simp only [operand, if_pos hcode, hreg, List.length_nil]
  | sp => cases hf; cases hw; rfl
  | pc => cases hf; cases hw; rfl
  | ex => cases hf; cases hw; rfl
  | invalid n => cases hf

theorem indirect_decoded {r : Register} (hf : r.indirectField = .ok f) (hw : f.trailing? labels = some ws)
    (rest : List Word) : operand canonical p f.code (ws ++ rest) = some (.indirect r, ws.length) := by
  have hgeneral : ∀ n : Fin 8, ¬ 0x08 + n.val.toUInt16 < 0x08 ∧ 0x08 + n.val.toUInt16 < 0x10 ∧
      general (0x08 + n.val.toUInt16) = .general n := by decide
  cases r with
  | general n =>
    cases hf
    cases hw
    obtain ⟨hcode, hcode', hreg⟩ := hgeneral n
    simp only [operand, if_neg hcode, if_pos hcode', hreg, List.length_nil]
  | sp => cases hf; cases hw; rfl
  | pc => cases hf
  | ex => cases hf
  | invalid n => cases hf

theorem offset_decoded (canonical : Bool) (p : Position) {r : Register} {l : Literal}
    (hf : r.offsetField l = .ok f) (hw : f.trailing? labels = some ws) :
    ∃ w, l.word? labels = some w ∧
      ∀ rest, operand canonical p f.code (ws ++ rest) = some (.offset r (.number w), ws.length) := by
  have hgeneral : ∀ n : Fin 8, ¬ 0x10 + n.val.toUInt16 < 0x08 ∧ ¬ 0x10 + n.val.toUInt16 < 0x10 ∧
      0x10 + n.val.toUInt16 < 0x18 ∧ general (0x10 + n.val.toUInt16) = .general n := by decide
  cases r with
  | general n =>
    cases hf
    obtain ⟨w, hl, rfl⟩ := Option.map_eq_some_iff.1 hw
    obtain ⟨h1, h2, h3, hreg⟩ := hgeneral n
    refine ⟨w, hl, fun rest => ?_⟩
    simp only [operand, if_neg h1, if_neg h2, if_pos h3, hreg]
    rfl
  | sp =>
    cases hf
    obtain ⟨w, hl, rfl⟩ := Option.map_eq_some_iff.1 hw
    exact ⟨w, hl, fun rest => rfl⟩
  | pc => cases hf
  | ex => cases hf
  | invalid n => cases hf

/-- A code from `0x20` on is a small literal of a value. -/
theorem operand_inline {code : Word} (h : 0x20 ≤ code.toNat) (rest : List Word) :
    operand canonical .value code rest =
      (Word.inlineLiteral? code).map fun w => (.immediate (.number w), 0) := by
  have hlt : ∀ k : Word, k.toNat ≤ 0x20 → ¬ code < k := by
    intro k hk hlt
    rw [UInt16.lt_iff_toNat_lt] at hlt
    omega
  have hne : ∀ k : Word, k.toNat < 0x20 → code ≠ k := by
    rintro k hk rfl
    omega
  unfold operand
  rw [if_neg (hlt 0x08 (by decide)), if_neg (hlt 0x10 (by decide)), if_neg (hlt 0x18 (by decide)),
    if_neg (hne 0x18 (by decide)), if_neg (hne 0x19 (by decide)), if_neg (hne 0x1a (by decide)),
    if_neg (hne 0x1b (by decide)), if_neg (hne 0x1c (by decide)), if_neg (hne 0x1d (by decide)),
    if_neg (hne 0x1e (by decide))]
  simp only
  rw [if_neg (hne 0x1f (by decide))]

theorem immediate_decoded {l : Literal} (hplain : canonical = true → l.references = [])
    (hw : l.field.trailing? labels = some ws) :
    ∃ w, l.word? labels = some w ∧
      ∀ rest, operand canonical .value l.field.code (ws ++ rest) = some (.immediate (.number w), ws.length) := by
  cases l with
  | label name =>
    obtain ⟨w, hl, rfl⟩ := Option.map_eq_some_iff.1 hw
    -- only the decoder that is not canonical takes a small address from the next word
    have hcan : canonical = false := by
      cases canonical with
      | false => rfl
      | true => cases hplain rfl
    subst hcan
    exact ⟨w, hl, fun rest => rfl⟩
  | number v =>
    refine ⟨v, rfl, ?_⟩
    unfold Literal.field at hw ⊢
    cases hv : v.inlineCode? with
    | some c =>
      simp only [hv] at hw ⊢
      cases hw
      obtain ⟨hlow, -, hlit⟩ := Word.inlineCode_ok hv
      exact fun rest => by simp [operand_inline hlow, hlit]
    | none =>
      simp only [hv] at hw ⊢
      cases hw
      intro rest
      show (if canonical && v.inlineCode?.isSome then none else some (Operand.immediate (.number v), 1)) = _
      rw [hv, Option.isSome_none, Bool.and_false]
      rfl

/-- The field of an operand decodes to the operand with its label resolved. -/
theorem operand_recovered (canonical : Bool) (p : Position) {o : Operand}
    (hplain : canonical = true → o.references = []) (hf : p.encode o = .ok f) (hw : f.trailing? labels = some ws) :
    ∃ o', o.resolve? labels = some o' ∧ Recovered canonical p f ws o' := by
  have hbelow := (encode_fits hf).below
  cases o with
  | missing => cases p <;> cases hf
  | register r =>
    rw [encode_register] at hf
    exact ⟨_, rfl, hbelow, register_decoded hf hw⟩
  | indirect r =>
    rw [encode_indirect] at hf
    exact ⟨_, rfl, hbelow, indirect_decoded hf hw⟩
  | offset r l =>
    rw [encode_offset] at hf
    obtain ⟨w, hl, hdecoded⟩ := offset_decoded canonical p hf hw
    exact ⟨_, by simp [Operand.resolve?, Literal.resolve?, hl], hbelow, hdecoded⟩
  | memory l =>
    rw [encode_memory] at hf
    cases hf
    obtain ⟨w, hl, rfl⟩ := Option.map_eq_some_iff.1 hw
    exact ⟨.memory (.number w), by simp [Operand.resolve?, Literal.resolve?, hl], hbelow, fun rest => rfl⟩
  | immediate l =>
    cases p with
    | destination => cases hf
    | value =>
      cases hf
      obtain ⟨w, hl, hdecoded⟩ := immediate_decoded hplain hw
      exact ⟨_, by simp [Operand.resolve?, Literal.resolve?, hl], hbelow, hdecoded⟩
  | push =>
    cases p with
    | value => cases hf
    | destination => cases hf; cases hw; exact ⟨.push, rfl, hbelow, fun rest => rfl⟩
  | pop =>
    cases p with
    | destination => cases hf
    | value => cases hf; cases hw; exact ⟨.pop, rfl, hbelow, fun rest => rfl⟩
  | foreign r => cases p <;> cases hf

/-! ## Instructions -/

/-- The words of an instruction decode to it with its labels resolved, whatever follows them. -/
theorem instruction_recovered (canonical : Bool) {i : Instruction} (hop : i.isOperation = true)
    (hplain : canonical = true → i.references = []) (hw : i.words? labels = some ws) :
    ∃ w vs i', ws = w :: vs ∧ i.resolve? labels = some i' ∧
      ∀ rest, instruction? canonical w (vs ++ rest) = some (i', vs.length) := by
  cases i with
  | basic op b a =>
    simp only [Instruction.words?] at hw
    split at hw
    · rename_i code value dest hcode hvalue hdest
      obtain ⟨va, hva, hw⟩ := Option.bind_eq_some_iff.1 hw
      obtain ⟨vb, hvb, rfl⟩ := Option.map_eq_some_iff.1 hw
      obtain ⟨hofCode, hne, hlt⟩ := BasicOp.ofCode_code hcode
      obtain ⟨a', ha', hbelow, hdecoded⟩ := operand_recovered canonical .value
        (fun h => (List.append_eq_nil_iff.1 (hplain h)).2) hvalue hva
      obtain ⟨b', hb', hbelow', hdecoded'⟩ := operand_recovered canonical .destination
        (fun h => (List.append_eq_nil_iff.1 (hplain h)).1) hdest hvb
      have hdest32 : dest.code.toNat < 32 := Nat.lt_of_lt_of_le hbelow' (by decide)
      refine ⟨Word.packBasic code dest.code value.code, va ++ vb, .basic op b' a', rfl,
        by simp [Instruction.resolve?, ha', hb'], fun rest => ?_⟩
      -- the value's trailing word comes first, so the destination is read from what is left after it
      simp only [instruction?, Word.highField_packBasic hlt hdest32 hbelow, Word.lowField_packBasic hlt hdest32 hbelow,
        Word.middleField_packBasic hlt hdest32 hbelow, List.append_assoc, hdecoded, if_neg hne, hofCode,
        List.drop_left, hdecoded', Option.bind_eq_bind, Option.bind_some, Option.pure_def, List.length_append]
    · cases hw
  | special op a =>
    simp only [Instruction.words?] at hw
    split at hw
    · rename_i code value hcode hvalue
      obtain ⟨va, hva, rfl⟩ := Option.map_eq_some_iff.1 hw
      obtain ⟨hofCode, hlt⟩ := SpecialOp.ofCode_code hcode
      obtain ⟨a', ha', hbelow, hdecoded⟩ := operand_recovered canonical .value hplain hvalue hva
      have hzero : (0 : Word).toNat < 32 := by decide
      refine ⟨Word.packSpecial code value.code, va, .special op a', rfl, by simp [Instruction.resolve?, ha'],
        fun rest => ?_⟩
      simp only [instruction?, Word.packSpecial_eq, Word.highField_packBasic hzero hlt hbelow,
        Word.lowField_packBasic hzero hlt hbelow, Word.middleField_packBasic hzero hlt hbelow, hdecoded, if_pos,
        hofCode, Option.bind_eq_bind, Option.bind_some, Option.pure_def]
    · cases hw
  | missing => cases hop
  | label name => cases hop
  | data items => cases hop
  | foreign name => cases hop

end Decode

end Dcpu16
