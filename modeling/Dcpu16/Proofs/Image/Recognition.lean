/-
The decoders recognise what is laid out. At every address of every image the canonical decoder finds an
instruction exactly if the words that the instruction is laid out as stand there, and otherwise the single
word as data; so no instruction's words begin another's. The other decoder, which also takes a small
number from a trailing word, recovers every program of operations and labels: it stays in step with the
spans, whatever addresses the labels have.
-/
import Dcpu16.Proofs.Image.Decode
import Dcpu16.Proofs.Image.Encoded

namespace Dcpu16

/-- An operation whose literals are all numbers. -/
def Instruction.isPlain (i : Instruction) : Bool := i.isOperation && i.references.isEmpty

theorem Instruction.isPlain_iff {i : Instruction} : i.isPlain = true ↔ i.isOperation = true ∧ i.references = [] := by
  simp [isPlain]

/-! ## The instruction at an address -/

namespace Decode

/-- The instruction that a decoder finds at an address of an image, and its size. -/
def at? (canonical : Bool) (words : List Word) (address : Nat) : Option (Instruction × Nat) :=
  match words.drop address with
  | [] => none
  | w :: rest => some ((first canonical w rest).1, (first canonical w rest).2 + 1)

theorem at_eq_first (canonical : Bool) {words : List Word} {ip : Nat} (hip : ip < words.length) :
    at? canonical words ip = some ((first canonical words[ip] (words.drop (ip + 1))).1,
      (first canonical words[ip] (words.drop (ip + 1))).2 + 1) := by
  unfold at?
  rw [List.drop_eq_getElem_cons hip]

/-- Decoding an image is finding one instruction after the other. -/
theorem decode_at {words : List Word} {d : Decoded} (h : d ∈ decode true words) :
    at? true words d.address = some (d.instruction, d.words.length) := by
  have hcut : ∀ {address : Nat} {suffix : List Word} {ds : List Decoded}, Cut true address suffix ds →
      words.drop address = suffix → ∀ d ∈ ds, at? true words d.address = some (d.instruction, d.words.length) := by
    intro address suffix ds cut
    induction cut with
    | nil => exact fun _ d hd => by cases hd
    | @cons address w rest i n ds head tail ih =>
      intro hdrop d hd
      have hn := (first_cells head).1
      rcases List.mem_cons.1 hd with rfl | hd
      · simp [at?, hdrop, head, hn]
      · refine ih ?_ d hd
        rw [Nat.add_assoc, ← List.drop_drop, hdrop, Nat.add_comm 1, List.drop_succ_cons]
  exact hcut (decode_cut true words) List.drop_zero d h

/-- Where the words of an instruction stand, the canonical decoder finds it. -/
theorem at_of_words {i : Instruction} {labels : Table Word} {ws : List Word} (words : List Word) (ip : Nat)
    (hi : i.isPlain = true) (hw : i.words? labels = some ws) (hat : ws <+: words.drop ip) :
    at? true words ip = some (i, ws.length) := by
  obtain ⟨hop, hplain⟩ := Instruction.isPlain_iff.1 hi
  obtain ⟨rest, hrest⟩ := hat
  obtain ⟨w, vs, i', rfl, hres, hdecoded⟩ := instruction_recovered true hop (fun _ => hplain) hw
  rw [Instruction.resolve_plain hplain, Option.some.injEq] at hres
  subst hres
  unfold at?
  rw [← hrest, List.cons_append]
  simp only [first, hdecoded, Option.getD_some, List.length_cons]

theorem instruction_isOperation {canonical : Bool} {w : Word} {rest : List Word} {i : Instruction} {n : Nat}
    (h : instruction? canonical w rest = some (i, n)) : i.isOperation = true := by
  unfold instruction? at h
  obtain ⟨⟨a, m⟩, -, h⟩ := Option.bind_eq_some_iff.1 h
  simp only at h
  split at h
  · obtain ⟨op, -, h⟩ := Option.bind_eq_some_iff.1 h
    cases h
    rfl
  · obtain ⟨op, -, h⟩ := Option.bind_eq_some_iff.1 h
    obtain ⟨⟨b, k⟩, -, h⟩ := Option.bind_eq_some_iff.1 h
    cases h
    rfl

end Decode

/-! ## Instructions on their own -/

namespace Instruction

/-- Cells that are all words refer to no label. -/
theorem references_of_cells {i : Instruction} {ws : List Word} (h : i.cells = ws.map .word) : i.references = [] := by
  have hsound : ∀ e, Cell.fault e ∉ i.cells := by
    intro e he
    rw [h] at he
    simp at he
  have hemitted := references_cells hsound 0 0
  rw [h, Cell.references_words, List.map_nil, eq_comm, List.map_eq_nil_iff] at hemitted
  rw [List.eq_nil_iff_forall_not_mem] at hemitted ⊢
  exact fun name hname => hemitted name (mem_emitted.2 hname)

theorem cells_length {i : Instruction} (h : i.isOperation = true) : i.cells.length ≤ 3 := by
  have htrailing : ∀ f : Field, f.trailing.length ≤ 1 := by
    intro f
    rw [Field.trailing]
    cases f.next <;> simp
  cases i with
  | basic op b a =>
    rw [cells]
    rcases basicCells_cases op b a with ⟨code, value, dest, -, -, -, hcells⟩ | ⟨e, hcells, -⟩
    · have ha := htrailing value
      have hb := htrailing dest
      rw [hcells, List.length_cons, List.length_append]
      omega
    · simp [hcells]
  | special op a =>
    rw [cells]
    rcases specialCells_cases op a with ⟨code, value, -, -, hcells⟩ | ⟨e, hcells, -⟩
    · have ha := htrailing value
      rw [hcells, List.length_cons]
      omega
    · simp [hcells]
  | missing => cases h
  | label name => cases h
  | data items => cases h
  | foreign name => cases h

end Instruction

/-- An instruction of plain words is laid out as these words. -/
theorem generate_words {i : Instruction} {ws : List Word} (strict : Bool) (h : i.cells = ws.map .word)
    (hfit : ws.length ≤ memorySize) : generate strict [i] = .ok ⟨ws, {}, [⟨0, 0, ws.length⟩]⟩ := by
  have hsize : ¬ memorySize < ws.length := Nat.not_lt.2 hfit
  simp [generate, layout, Draft.addAll, Draft.add_words strict _ h, hsize, Draft.appendWords, Draft.patchAll,
    Draft.image]

/-- An operation on its own is laid out as its words. -/
theorem words_of_generate {strict : Bool} {i : Instruction} {image : Image} (h : generate strict [i] = .ok image) :
    i.words? image.labels = some image.words := by
  obtain ⟨parts, hparts, hwords, -⟩ := generate_parts h
  cases hparts with
  | cons hi hnil =>
    cases hnil
    rw [hwords]
    simpa using hi

/-! ## Recognition -/

/-- What the canonical decoder finds is laid out as the words that it was found in. -/
theorem generate_of_at (strict : Bool) {words : List Word} {ip : Nat} {i : Instruction} {k : Nat}
    (hop : i.isOperation = true) (h : Decode.at? true words ip = some (i, k)) :
    ∃ image, generate strict [i] = .ok image ∧ image.words.length = k ∧ (words.drop ip).take k = image.words := by
  unfold Decode.at? at h
  split at h
  · cases h
  · rename_i w rest hdrop
    rcases hfirst : Decode.first true w rest with ⟨j, n⟩
    rw [hfirst] at h
    cases h
    obtain ⟨hn, hcells⟩ := Decode.first_cells hfirst
    have hlength : (w :: rest.take n).length = n + 1 := by simp [hn]
    have hsmall := Instruction.cells_length hop
    rw [hcells, List.length_map, hlength] at hsmall
    refine ⟨_, generate_words strict hcells ?_, hlength, by rw [hdrop]; rfl⟩
    rw [hlength, memorySize]
    omega

/-- At every address the canonical decoder finds an operation of plain numbers and its size exactly if laying
out the operation gives so many words and they stand there. If there is no such operation, it finds the word at
the address as data. So the words of two different operations never begin one with the other. What it lists for
the whole image is what it finds at the addresses in the list. -/
theorem at_iff_generate (strict : Bool) (words : List Word) (ip : Nat) (hip : ip < words.length) :
    (∀ i k, i.isPlain = true →
      (Decode.at? true words ip = some (i, k) ↔
        ∃ image, generate strict [i] = .ok image ∧ image.words.length = k ∧
          (words.drop ip).take k = image.words)) ∧
    ((∀ i image, i.isPlain = true → generate strict [i] = .ok image → ¬ image.words <+: words.drop ip) →
      Decode.at? true words ip = some (.data [.word words[ip]], 1)) ∧
    (∀ i j x y, i.isPlain = true → j.isPlain = true → generate strict [i] = .ok x → generate strict [j] = .ok y →
      x.words <+: y.words → i = j) ∧
    ∀ d ∈ decode true words, Decode.at? true words d.address = some (d.instruction, d.words.length) := by
  refine ⟨fun i k hi => ⟨generate_of_at strict (Instruction.isPlain_iff.1 hi).1, ?_⟩, fun hnone => ?_, ?_,
    fun d hd => Decode.decode_at hd⟩
  · rintro ⟨image, himage, rfl, hwords⟩
    exact Decode.at_of_words words ip hi (words_of_generate himage) (hwords ▸ List.take_prefix _ _)
  · have hfirst := Decode.at_eq_first true hip
    unfold Decode.first at hfirst
    cases hinst : Decode.instruction? true words[ip] (words.drop (ip + 1)) with
    | none => simpa only [hinst, Option.getD_none] using hfirst
    | some found =>
      obtain ⟨i, n⟩ := found
      -- an operation that is found would be one whose words stand here
      have hop := Decode.instruction_isOperation hinst
      have hplain := Instruction.references_of_cells (Decode.instruction_cells hinst).2
      have hat : Decode.at? true words ip = some (i, n + 1) := by simpa only [hinst, Option.getD_some] using hfirst
      obtain ⟨image, himage, -, hwords⟩ := generate_of_at strict hop hat
      exact absurd (hwords ▸ List.take_prefix _ _) (hnone i image (Instruction.isPlain_iff.2 ⟨hop, hplain⟩) himage)
  · intro i j x y hi hj hx hy hbegins
    -- both are found at the start of the longer one
    have hfirst := Decode.at_of_words y.words 0 hi (words_of_generate hx) hbegins
    have hsecond := Decode.at_of_words y.words 0 hj (words_of_generate hy) List.prefix_rfl
    exact congrArg Prod.fst (Option.some.inj (hfirst.symm.trans hsecond))

/-- Two trailing words, and at the end of the image an operation whose trailing word is cut off. -/
theorem at_iff_generate_trailing :
    let words : List Word := [0x7fc1, 0x20, 0x1000, 0x7c01]
    Decode.at? true words 0 = some (.basic .set (.memory (.number 0x1000)) (.immediate (.number 0x20)), 3) ∧
      Decode.at? true words 3 = some (.data [.word 0x7c01], 1) :=
  ⟨((at_iff_generate true [0x7fc1, 0x20, 0x1000, 0x7c01] 0 (by decide)).1 _ 3 rfl).2 ⟨_, rfl, rfl, rfl⟩, rfl⟩

/-! ## Programs of operations and labels -/

namespace Decode

/-- Along a program the decoder stays in step with the spans: a label takes no words, and the words of an
operation are taken whole, so that it goes on where the next instruction begins. -/
theorem cut_operations {labels : Table Word} {is : List Instruction} {parts : List (List Word)}
    (h : List.Forall₂ (fun i ws => Instruction.words? labels i = some ws) is parts)
    (hkinds : ∀ i ∈ is, i.isOperation = true ∨ ∃ name, i = .label name) :
    ∀ {n start : Nat} {ds : List Decoded}, Cut false start parts.flatten ds →
      ds.map (fun d => (some d.instruction, (d.address : Int))) =
        ((is.zip (Draft.spansFrom n start is)).filter (·.1.isOperation)).map fun p =>
          (p.1.resolve? labels, p.2.start) := by
  induction h with
  | nil =>
    intro n start ds cut
    cases cut
    rfl
  | @cons i ws is parts hi _ ih =>
    intro n start ds cut
    have hsize := Cell.resolve_length ((Instruction.resolve_cells labels i).trans hi)
    have hrest := fun j hj => hkinds j (List.mem_cons_of_mem i hj)
    rw [List.flatten_cons] at cut
    rw [Draft.spansFrom, ← hsize, List.zip_cons_cons]
    rcases hkinds i List.mem_cons_self with hop | ⟨name, rfl⟩
    · obtain ⟨w, vs, i', rfl, hres, hdecoded⟩ :=
        instruction_recovered false hop (fun h => by cases h) hi
      rw [List.cons_append] at cut
      simp only [List.filter_cons, hop, if_true]
      cases cut with
      | cons head tail =>
        rw [first, hdecoded, Option.getD_some] at head
        cases head
        rw [List.drop_left] at tail
        rw [List.map_cons, List.map_cons, ih hrest tail, hres, List.length_cons, Nat.add_assoc, Nat.add_comm 1]
    · cases hi
      simp only [List.filter_cons, Instruction.isOperation, Bool.false_eq_true, if_false]
      exact ih hrest cut

end Decode

/-- A program of operations and labels is recovered from its image: the decoder that takes small numbers from
trailing words too finds the operations in order, each reference to a label as the label's address, and finds each
at the start of its span. -/
theorem decode_generate_operations (strict : Bool) (program : List Instruction) (image : Image)
    (hkinds : ∀ i ∈ program, i.isOperation = true ∨ ∃ name, i = .label name)
    (h : generate strict program = .ok image) :
    image.spans.length = program.length ∧ (∀ (n : Nat) (s : Span), image.spans[n]? = some s → s.index = n) ∧
    (decode false image.words).map (fun d => (some d.instruction, (d.address : Int))) =
      ((program.zip image.spans).filter (·.1.isOperation)).map fun p => (p.1.resolve? image.labels, p.2.start) := by
  obtain ⟨parts, hparts, hwords, hspans⟩ := generate_parts h
  rw [hspans, hwords]
  refine ⟨Draft.spansFrom_length 0 0 program, fun n s hs => ?_, ?_⟩
  · rw [Draft.spansFrom_index hs]
    omega
  · exact Decode.cut_operations hparts hkinds (Decode.decode_cut false parts.flatten)

/-- A label is used before and after its definition, and its address would fit a code: the operations come back
with the number, each at its own start. -/
theorem decode_generate_operations_small :
    let program : List Instruction :=
      [.basic .set (.memory (.label (Text.ofString "b"))) (.immediate (.label (Text.ofString "b"))),
        .label (Text.ofString "b"), .special .jsr (.immediate (.label (Text.ofString "b"))),
        .basic .set (.register .pc) (.immediate (.number 3))]
    ∃ image, generate true program = .ok image ∧ image.words = [0x7fc1, 3, 3, 0x7c20, 3, 0x9381] ∧
      (decode false image.words).map (fun d => (some d.instruction, (d.address : Int))) =
        [(some (.basic .set (.memory (.number 3)) (.immediate (.number 3))), 0),
          (some (.special .jsr (.immediate (.number 3))), 3),
          (some (.basic .set (.register .pc) (.immediate (.number 3))), 5)] := by
  intro program
  have himage : generate true program = .ok ⟨[0x7fc1, 3, 3, 0x7c20, 3, 0x9381], ⟨[(Text.ofString "b", 3)]⟩,
      [⟨0, 0, 3⟩, ⟨1, 3, 0⟩, ⟨2, 3, 2⟩, ⟨3, 5, 1⟩]⟩ := rfl
  refine ⟨_, himage, rfl, (decode_generate_operations true program _ ?_ himage).2.2⟩
  intro i hi
  simp only [program, List.mem_cons, List.not_mem_nil, or_false] at hi
  rcases hi with rfl | rfl | rfl | rfl
  · exact .inl rfl
  · exact .inr ⟨_, rfl⟩
  · exact .inl rfl
  · exact .inl rfl

end Dcpu16
