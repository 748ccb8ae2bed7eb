/-
What a source can say is well-formed. Whatever equates and evaluator a line is read with, the instructions that it
gives are well-formed trees, and so are those of every source that is read. A program that is accepted therefore reads
back from its own text and gives its image again, unless an equate led it to refer to a label that has the
name of the system's own equate.
-/
import Dcpu16.Proofs.Source.RoundTrip

namespace Dcpu16

theorem map_ok {ε α β : Type} {f : α → β} {x : Except ε α} {y : β} (h : x.map f = .ok y) :
    ∃ a, x = .ok a ∧ f a = y := by
  cases x with
  | error e => cases h
  | ok a =>
    cases h
    exact ⟨a, rfl, rfl⟩

/-- A result that is some value was that value; the options of what can be compared can be compared. -/
theorem ok_of_toOption {ε α : Type} {x : Except ε α} {a : α} (h : x.toOption = some a) : x = .ok a := by
  cases x with
  | error e => cases h
  | ok b =>
    cases h
    rfl

/-! ## Names that are looked up -/

theorem Register.valid_of_ofName {t : Text} {r : Register} (h : ofName? t = some r) : r.valid = true := by
  have hall : ∀ r ∈ all, r.valid = true := by decide
  exact hall r (List.mem_of_find?_eq_some h)

theorem BasicOp.valid_of_ofName {t : Text} {op : BasicOp} (h : ofName? t = some op) : op.valid = true := by
  have hall : ∀ op ∈ all, op.valid = true := by decide
  exact hall op (List.mem_of_find?_eq_some h)

theorem SpecialOp.valid_of_ofName {t : Text} {op : SpecialOp} (h : ofName? t = some op) : op.valid = true := by
  have hall : ∀ op ∈ all, op.valid = true := by decide
  exact hall op (List.mem_of_find?_eq_some h)

namespace Equates

variable [Evaluator] {e : Equates}

/-! ## Operands -/

/-- A literal is the value of what its text stands for, or this is a name and no register's. -/
theorem literal_cases {text : Text} {l : Literal} (h : e.literal text = .ok l) :
    (∃ w, e.value (e.expand (Text.trim text)) = .ok w ∧ l = .number w) ∨
      (Text.isName (e.expand (Text.trim text)) = true ∧ e.register? (Text.trim text) = none ∧
        l = .label (e.expand (Text.trim text))) := by
  unfold literal at h
  dsimp only at h
  split at h
  · cases h
  · split at h
    · rename_i hname
      split at h
      · cases h
      · rename_i hregister
        cases h
        exact .inr ⟨hname, by simpa [register?] using hregister, rfl⟩
    · obtain ⟨w, hw, rfl⟩ := map_ok h
      exact .inl ⟨w, hw, rfl⟩

/-- A literal is well-formed, and a label has the name that its text stands for. -/
theorem literal_ok {text : Text} {l : Literal} (h : e.literal text = .ok l) :
    l.wellFormed = true ∧ ∀ name, l = .label name → name = e.expand (Text.trim text) := by
  rcases literal_cases h with ⟨w, -, rfl⟩ | ⟨hname, hregister, rfl⟩
  · exact ⟨rfl, fun name he => by cases he⟩
  · refine ⟨?_, fun name he => (Literal.label.inj he).symm⟩
    rw [register?] at hregister
    rw [Literal.wellFormed, hname, hregister]
    rfl

theorem indirection_wellFormed {inner : Text} {o : Operand} (h : e.indirection inner = .ok o) :
    o.wellFormed = true := by
  unfold indirection at h
  split at h
  · split at h
    · rename_i r hr
      cases h
      exact Register.valid_of_ofName hr
    · obtain ⟨l, hl, rfl⟩ := map_ok h
      exact (literal_ok hl).1
  · rename_i x y negate _
    split at h
    · cases h
    · rename_i r other hr
      have hvalid : r.valid = true := by
        unfold registerAndOther? at hr
        split at hr
        · rename_i hx
          cases hr
          exact Register.valid_of_ofName hx
        · obtain ⟨s, hs, he⟩ := Option.map_eq_some_iff.1 hr
          cases he
          exact Register.valid_of_ofName hs
      split at h
      · cases h
      · rename_i l hl _
        cases h
        rw [Operand.wellFormed, hvalid, (literal_ok hl).1]
        rfl
      · cases h
        rw [Operand.wellFormed, hvalid]
        rfl
      · cases h
  · cases h

theorem operand_wellFormed {text : Text} {o : Operand} (h : e.operand text = .ok o) : o.wellFormed = true := by
  unfold operand at h
  dsimp only at h
  split at h
  · cases h
  split at h
  · cases h
    rfl
  rename_i hpush
  split at h
  · cases h
    rfl
  rename_i hpop
  split at h
  · cases h
    rfl
  rename_i hpeek
  split at h
  · obtain ⟨l, hl, rfl⟩ := map_ok h
    exact (literal_ok hl).1
  split at h
  · exact indirection_wellFormed h
  split at h
  · rename_i r hr
    cases h
    exact Register.valid_of_ofName hr
  · obtain ⟨l, hl, rfl⟩ := map_ok h
    obtain ⟨hwf, hlabel⟩ := literal_ok hl
    -- a label's name is the whole operand, which was compared with the keywords first
    have hkeyword : l.isKeyword = false := by
      cases l with
      | number w => rfl
      | label name =>
        have hname := hlabel name rfl
        rw [Text.trim_trim] at hname
        simp only [not_or] at hpush hpop
        simp [Literal.isKeyword, Operand.keywords, hname, hpush.1, hpop.1, hpeek]
    rw [Operand.wellFormed, hwf, hkeyword]
    rfl

theorem valueOperand_ok {text : Text} {o : Operand} (h : e.valueOperand text = .ok o) :
    o.isValue = true ∧ o.wellFormed = true := by
  unfold valueOperand at h
  split at h
  · rename_i o' ho
    split at h
    · rename_i hv
      cases h
      exact ⟨hv, operand_wellFormed ho⟩
    · cases h
  · cases h

theorem destinationOperand_ok {text : Text} {o : Operand} (h : e.destinationOperand text = .ok o) :
    o.isDestination = true ∧ o.wellFormed = true := by
  unfold destinationOperand at h
  split at h
  · rename_i o' ho
    split at h
    · rename_i hd
      cases h
      exact ⟨hd, operand_wellFormed ho⟩
    · cases h
  · cases h

/-! ## Instructions -/

theorem datum_wellFormed {item : Text} {d : Datum} (h : e.datum item = .ok d) : d.wellFormed = true := by
  unfold datum at h
  split at h
  · split at h
    · cases h
    · split at h
      · rename_i hvalid
        cases h
        exact hvalid
      · cases h
  · split at h
    · rename_i hname
      cases h
      exact hname
    · cases h
  · split at h
    · cases h
      rfl
    · cases h
    · cases h

theorem dataOnto_wellFormed {items : List Text} {acc ds : List Datum} (hacc : ∀ d ∈ acc, d.wellFormed = true)
    (h : e.dataOnto acc items = .ok ds) :
    ds.length = acc.length + items.length ∧ ∀ d ∈ ds, d.wellFormed = true := by
  induction items generalizing acc with
  | nil =>
    cases h
    exact ⟨by simp, fun d hd => hacc d (List.mem_reverse.1 hd)⟩
  | cons item items ih =>
    rw [dataOnto] at h
    split at h
    · rename_i d hd
      obtain ⟨hlength, hall⟩ := ih (fun x hx => by
        rcases List.mem_cons.1 hx with rfl | hx
        · exact datum_wellFormed hd
        · exact hacc x hx) h
      exact ⟨by simp only [hlength, List.length_cons]; omega, hall⟩
    · cases h

theorem data_wellFormed {operands : Text} {i : Instruction} (h : e.data operands = .ok i) : i.wellFormed = true := by
  unfold data at h
  split at h
  · cases h
  · obtain ⟨ds, hds, rfl⟩ := map_ok h
    obtain ⟨hlength, hall⟩ := dataOnto_wellFormed (by simp) hds
    -- there are as many items as parts, and splitting gives at least one part
    have hne : ds ≠ [] := by
      rintro rfl
      have hparts := Text.splitTop_ne_nil (Text.byte ',') operands
      rw [List.length_nil, Nat.zero_add] at hlength
      exact hparts (List.length_eq_zero_iff.1 hlength.symm)
    rw [Instruction.wellFormed, List.isEmpty_eq_false_iff.2 hne, List.all_eq_true.2 hall]
    rfl

theorem instruction_wellFormed {mnemonic operands : Text} {i : Instruction}
    (h : e.instruction mnemonic operands = .ok i) : i.wellFormed = true := by
  unfold instruction at h
  split at h
  · rename_i op hop
    unfold basic at h
    split at h
    · split at h
      · cases h
      · rename_i b hb
        obtain ⟨a, ha, rfl⟩ := map_ok h
        obtain ⟨hd, hbwf⟩ := destinationOperand_ok hb
        obtain ⟨hv, hawf⟩ := valueOperand_ok ha
        rw [Instruction.wellFormed, BasicOp.valid_of_ofName hop, hd, hbwf, hv, hawf]
        rfl
    · cases h
    · cases h
  · split at h
    · rename_i op hop
      unfold special at h
      split at h
      · obtain ⟨a, ha, rfl⟩ := map_ok h
        obtain ⟨hv, hawf⟩ := valueOperand_ok ha
        rw [Instruction.wellFormed, SpecialOp.valid_of_ofName hop, hv, hawf]
        rfl
      · cases h
      · cases h
    · cases h

end Equates

/-! ## Lines -/

namespace Line

theorem cutLabels_isName {labels names : List Text} {fuel : Nat} {line rest : Text}
    (hlabels : ∀ name ∈ labels, Text.isName name = true) (h : cutLabels labels fuel line = .ok (names, rest)) :
    ∀ name ∈ names, Text.isName name = true := by
  induction fuel generalizing labels line with
  | zero =>
    cases h
    exact fun name hn => hlabels name (List.mem_reverse.1 hn)
  | succ fuel ih =>
    rw [cutLabels] at h
    split at h
    · cases h
      exact fun name hn => hlabels name (List.mem_reverse.1 hn)
    · split at h
      · rename_i hname
        refine ih (fun name hn => ?_) h
        rcases List.mem_cons.1 hn with rfl | hn
        · exact hname
        · exact hlabels name hn
      · cases h

theorem statement_wellFormed [Evaluator] {e e' : Equates} {line : Text} {is : List Instruction}
    (h : statement e line = .ok (is, e')) : ∀ i ∈ is, i.wellFormed = true := by
  unfold statement at h
  split at h
  · cases h
    simp
  dsimp only at h
  split at h
  · obtain ⟨_, -, he⟩ := map_ok h
    cases he
    simp
  split at h
  · obtain ⟨i, hi, he⟩ := map_ok h
    cases he
    simpa using Equates.data_wellFormed hi
  · obtain ⟨i, hi, he⟩ := map_ok h
    cases he
    simpa using Equates.instruction_wellFormed hi

/-- A line gives well-formed instructions only, whatever the equates and the evaluator. -/
theorem parse_wellFormed [Evaluator] {e e' : Equates} {line : Text} {is : List Instruction}
    (h : parse e line = .ok (is, e')) : ∀ i ∈ is, i.wellFormed = true := by
  unfold parse at h
  split at h
  · cases h
  · rename_i labels rest hlabels
    obtain ⟨⟨js, e''⟩, hjs, he⟩ := map_ok h
    cases he
    intro i hi
    rcases List.mem_append.1 hi with hi | hi
    · obtain ⟨name, hname, rfl⟩ := List.mem_map.1 hi
      exact cutLabels_isName (by simp) hlabels name hname
    · exact statement_wellFormed hjs i hi

end Line

/-! ## Sources -/

namespace Progress

/-- All instructions so far are well-formed. -/
def WellFormed (p : Progress) : Prop := ∀ l ∈ p.located.toList, l.instruction.wellFormed = true

theorem step_wellFormed [Evaluator] {p q : Progress} {raw : Text} (hp : p.WellFormed) (h : p.step raw = .ok q) :
    q.WellFormed := by
  unfold step at h
  dsimp only at h
  split at h
  · cases h
  · rename_i is equates his
    cases h
    intro l hl
    simp only [Array.toList_append, Array.toList_map, List.mem_append, List.mem_map] at hl
    rcases hl with hl | ⟨i, hi, rfl⟩
    · exact hp l hl
    · exact Line.parse_wellFormed his i hi

theorem steps_wellFormed [Evaluator] {p q : Progress} {raws : List Text} (hp : p.WellFormed)
    (h : p.steps raws = .ok q) : q.WellFormed := by
  induction raws generalizing p with
  | nil =>
    cases h
    exact hp
  | cons raw raws ih =>
    rw [steps] at h
    split at h
    · rename_i p' hp'
      exact ih (step_wellFormed hp hp') h
    · cases h

end Progress

theorem Source.read_wellFormed [Evaluator] {e : Equates} {input : Input} {s : Source}
    (h : (read e input).result = .ok s) : ∀ i ∈ s.instructions, i.wellFormed = true := by
  unfold read at h
  dsimp only at h
  split at h
  · cases h
  · rename_i q hq
    split at h
    · cases h
    · cases h
      intro i hi
      obtain ⟨l, hl, rfl⟩ := List.mem_map.1 hi
      exact Progress.steps_wellFormed (by simp [Progress.WellFormed]) hq l hl

/-! ## Reassembly -/

namespace Assembler

/-- The image of a source depends on its instructions only. -/
theorem generate_ok_congr {a : Assembler} {s s' : Source} {image : Image} (hs : s'.instructions = s.instructions)
    (h : (a.generate s).result = .ok image) : (a.generate s').result = .ok image := by
  unfold generate at *
  rw [hs]
  split at h
  · exact h
  · cases h

theorem assemble_ok [Evaluator] {a : Assembler} {input : Input} {s : Source} (h : (a.parse input).1.result = .ok s) :
    (a.assemble input).1.result = (a.generate s).result := by
  unfold parse at h
  unfold assemble parse
  dsimp only at h ⊢
  rw [h]
  rfl

theorem assemble_error [Evaluator] {a : Assembler} {input : Input} {e : SyntaxError} (h : (a.parse input).1.result = .error e) :
    (a.assemble input).1.result = .error (.located e) := by
  unfold parse at h
  unfold assemble parse
  dsimp only at h ⊢
  rw [h]

/-- The first instruction that refers to a label of the system's equate is where reassembly fails. -/
theorem assemble_renderLines_error [Evaluator] (strict verbose : Bool) {program before after : List Instruction} {i : Instruction}
    (h : ∀ j ∈ program, j.wellFormed = true) (hfits : ∀ j ∈ program, j.render.length < Input.lineLimit)
    (hprogram : program = before ++ i :: after) (hbefore : ∀ j ∈ before, memorySizeName ∉ j.references)
    (hms : memorySizeName ∈ i.references) :
    (({ strict, verbose } : Assembler).assemble ⟨renderLines program, none⟩).1.result =
      .error (.located ⟨before.length + 1, i.render, .line (.notNumber memorySizeText)⟩) :=
  assemble_error (Source.read_renderLines_error h hfits hprogram hbefore hms)

/-- A program that is accepted is rendered and assembled again to the same image exactly if none of its
instructions refers to a label of the system's equate; otherwise the first that does is read as a number out of
range. -/
theorem reassemble_rendered_program [Evaluator] (strict verbose : Bool) (input : Input) (s : Source) (image : Image)
    (hparse : (({ strict, verbose } : Assembler).parse input).1.result = .ok s)
    (himage : (({ strict, verbose } : Assembler).generate s).result = .ok image)
    (hfits : ∀ i ∈ s.instructions, i.render.length < Input.lineLimit) :
    ((({ strict, verbose } : Assembler).assemble ⟨renderLines s.instructions, none⟩).1.result = .ok image ↔
      ∀ i ∈ s.instructions, memorySizeName ∉ i.references) ∧
    ∀ before i after, s.instructions = before ++ i :: after →
      (∀ j ∈ before, memorySizeName ∉ j.references) → memorySizeName ∈ i.references →
      (({ strict, verbose } : Assembler).assemble ⟨renderLines s.instructions, none⟩).1.result =
        .error (.located ⟨before.length + 1, i.render, .line (.notNumber memorySizeText)⟩) := by
  have hwf : ∀ i ∈ s.instructions, i.wellFormed = true := Source.read_wellFormed hparse
  refine ⟨⟨fun hok => ?_, fun hms => ?_⟩, fun before i after => assemble_renderLines_error strict verbose hwf hfits⟩
  · -- if some instruction refers to the equate, the first that does is a fault
    cases hfind : s.instructions.find? fun i => decide (memorySizeName ∈ i.references) with
    | none => simpa using hfind
    | some i =>
      obtain ⟨hi, before, after, hsplit, hbefore⟩ := List.find?_eq_some_iff_append.1 hfind
      have hfails := assemble_renderLines_error strict verbose hwf hfits hsplit (by simpa using hbefore)
        (by simpa using hi)
      rw [hfails] at hok
      cases hok
  · -- otherwise the same instructions are read again, and an image depends on nothing else
    have hread : (({ strict, verbose } : Assembler).parse ⟨renderLines s.instructions, none⟩).1.result =
        .ok (Source.rendered s.instructions) := Source.read_renderLines hwf hfits hms
    have hsame : (Source.rendered s.instructions).instructions = s.instructions := rfl
    rw [assemble_ok hread]
    exact generate_ok_congr hsame himage

/-- A source with an equate, a character, a comment and the short forms for the stack, none of which is in the
text that is assembled again. -/
theorem reassemble_rendered_program_aliases :
    let _ : Evaluator := ⟨fun _ _ => none⟩
    let source : Input :=
      ⟨Text.ofString ".equ X loop\n:loop SET PICK 6, 'A' ; c\nSET PEEK, X\nend: DAT \"a;\", :end\n", none⟩
    let program : List Instruction :=
      [.label (Text.ofString "loop"), .basic .set (.offset .sp (.number 6)) (.immediate (.number 65)),
        .basic .set (.indirect .sp) (.immediate (.label (Text.ofString "loop"))), .label (Text.ofString "end"),
        .data [.string (Text.ofString "a;"), .label (Text.ofString "end")]]
    ∃ image, image.words = [0x7f41, 65, 6, 0x7f21, 0, 97, 59] ∧
      (({} : Assembler).assemble source).1.result = .ok image ∧
      (({} : Assembler).assemble ⟨renderLines program, none⟩).1.result = .ok image := by
  intro _ source program
  have hparse : (({} : Assembler).parse source).1.result =
      .ok ⟨program, [2, 2, 3, 4, 4],
        [Text.ofString ":loop SET PICK 6, 'A'", Text.ofString ":loop SET PICK 6, 'A'",
          Text.ofString "SET PEEK, X", Text.ofString "end: DAT \"a;\", :end",
          Text.ofString "end: DAT \"a;\", :end"]⟩ := ok_of_toOption (by decide +kernel)
  refine ⟨⟨[0x7f41, 65, 6, 0x7f21, 0, 97, 59], ⟨[(Text.ofString "end", 7), (Text.ofString "loop", 0)]⟩,
    [⟨0, 0, 0⟩, ⟨1, 0, 3⟩, ⟨2, 3, 2⟩, ⟨3, 5, 0⟩, ⟨4, 5, 2⟩]⟩, rfl, (assemble_ok hparse).trans rfl, ?_⟩
  exact (reassemble_rendered_program false false source _ _ hparse rfl (by decide +kernel)).1.2 (by decide +kernel)

/-- An equate can stand for the system's own, which is a label's name when it is read once and a number when it is
read again: the first text has an image, and the text of its instructions has none. -/
theorem reassemble_memorySize_fails :
    let _ : Evaluator := ⟨fun _ _ => none⟩
    let source : Input := ⟨Text.ofString ".equ X MEMORY_SIZE\n:MEMORY_SIZE SET A, X\n", none⟩
    let program : List Instruction :=
      [.label memorySizeName, .basic .set (.register (.general 0)) (.immediate (.label memorySizeName))]
    let line := Text.ofString ":MEMORY_SIZE SET A, X"
    (({} : Assembler).parse source).1.result = .ok ⟨program, [2, 2], [line, line]⟩ ∧
    (({} : Assembler).assemble source).1.result =
      .ok ⟨[0x7c01, 0], ⟨[(memorySizeName, 0)]⟩, [⟨0, 0, 0⟩, ⟨1, 0, 2⟩]⟩ ∧
    (({} : Assembler).assemble ⟨renderLines program, none⟩).1.result =
      .error (.located ⟨2, Text.ofString "SET A, MEMORY_SIZE", .line (.notNumber (Text.ofString "0x10000"))⟩) := by
  intro _ source program line
  have hparse : (({} : Assembler).parse source).1.result = .ok ⟨program, [2, 2], [line, line]⟩ :=
    ok_of_toOption (by decide +kernel)
  have hwf : ∀ i ∈ program, i.wellFormed = true := by decide +kernel
  have hfits : ∀ i ∈ program, i.render.length < Input.lineLimit := by decide +kernel
  have hsplit : program = [.label memorySizeName] ++
      .basic .set (.register (.general 0)) (.immediate (.label memorySizeName)) :: [] := rfl
  refine ⟨hparse, (assemble_ok hparse).trans rfl, ?_⟩
  exact assemble_renderLines_error false false hwf hfits hsplit (by decide) (by decide)

end Assembler

end Dcpu16
