/-
The spans of an image lie side by side: numbered in order, the first at address zero, each where the one before
ends, the last ending with the words. So every word has exactly one owner, and the search for it finds that one
and never a label's empty span at the same address.
-/
import Dcpu16.Proofs.Image.Pending

namespace Dcpu16

/-! ## Spans side by side -/

namespace Span

/-- Spans that lie side by side from one address to another. -/
inductive Tiles : Nat → List Span → Nat → Prop
  | nil (start : Nat) : Tiles start [] start
  | cons {index : Int} {start size stop : Nat} {ss : List Span} (rest : Tiles (start + size) ss stop) :
      Tiles start (⟨index, start, size⟩ :: ss) stop

theorem owns_iff {s : Span} {address : Word} :
    s.owns address = true ↔ s.start ≤ address.toNat ∧ (address.toNat : Int) < s.start + s.size := by
  simp [owns]

namespace Tiles

variable {start stop : Nat} {ss : List Span}

theorem start_eq (h : Tiles start ss stop) {s : Span} (hs : ss.head? = some s) : s.start = start := by
  cases h with
  | nil => cases hs
  | cons rest =>
    cases hs
    rfl

/-- Each span begins where the one before it ends. -/
theorem next_start (h : Tiles start ss stop) {k : Nat} {s t : Span} (hs : ss[k]? = some s)
    (ht : ss[k + 1]? = some t) : t.start = s.start + s.size := by
  induction h generalizing k with
  | nil => cases hs
  | cons rest ih =>
    cases k with
    | zero =>
      cases hs
      rw [rest.start_eq (by simpa [List.head?_eq_getElem?] using ht)]
      simp
    | succ k => exact ih hs ht

theorem last_stop (h : Tiles start ss stop) {s : Span} (hs : ss.getLast? = some s) : s.start + s.size = stop := by
  induction h with
  | nil => cases hs
  | cons rest ih =>
    cases rest with
    | nil =>
      cases hs
      simp
    | cons rest => exact ih (by simpa [List.getLast?_cons_cons] using hs)

theorem start_le_stop (h : Tiles start ss stop) : start ≤ stop := by
  induction h with
  | nil => exact Nat.le_refl _
  | cons rest ih => omega

/-- No span begins before the first. -/
theorem start_le (h : Tiles start ss stop) {s : Span} (hs : s ∈ ss) : (start : Int) ≤ s.start := by
  induction h with
  | nil => cases hs
  | cons rest ih =>
    rcases List.mem_cons.1 hs with rfl | hs
    · exact Int.le_refl _
    · have := ih hs
      omega

/-- The search finds the spans that own an address, so there is one at most. -/
theorem find_owner_iff (h : Tiles start ss stop) {s : Span} {address : Word} :
    ss.find? (·.owns address) = some s ↔ s ∈ ss ∧ s.owns address = true := by
  constructor
  · intro hs
    exact ⟨List.mem_of_find?_eq_some hs, List.find?_some (p := fun s : Span => s.owns address) hs⟩
  rintro ⟨hs, howns⟩
  induction h with
  | nil => cases hs
  | @cons index start size stop ss rest ih =>
    rcases List.mem_cons.1 hs with rfl | hs
    · simp only [List.find?_cons, howns]
    · -- what a later span owns lies behind the first one
      have hstart := rest.start_le hs
      have hnot : Span.owns ⟨index, start, size⟩ address = false := by
        rw [owns_iff] at howns
        rw [Bool.eq_false_iff, ne_eq, owns_iff]
        simp only
        omega
      simp only [List.find?_cons, hnot]
      exact ih hs

/-- An address between the ends has an owner. -/
theorem exists_owner_iff (h : Tiles start ss stop) {address : Word} :
    (∃ s ∈ ss, s.owns address = true) ↔ start ≤ address.toNat ∧ address.toNat < stop := by
  induction h with
  | nil =>
    simp only [List.not_mem_nil, false_and, exists_false, false_iff]
    omega
  | @cons index start size stop ss rest ih =>
    have hle := rest.start_le_stop
    simp only [List.mem_cons, exists_eq_or_imp]
    rw [ih, owns_iff]
    simp only
    omega

end Tiles

end Span

/-! ## The spans of an image -/

/-- The numbers of words that an instruction of its kind can take. -/
def Instruction.takes : Instruction → Int → Prop
  | .label _, n => n = 0
  | .basic .., n => 1 ≤ n ∧ n ≤ 3
  | .special .., n => 1 ≤ n ∧ n ≤ 2
  | _, n => 0 ≤ n

/-- Every instruction of the program has its span, and the spans lie side by side over all words of the image. -/
structure Image.Tiled (program : List Instruction) (image : Image) : Prop where
  count : image.spans.length = program.length
  index : ∀ (k : Nat) (s : Span), image.spans[k]? = some s → s.index = k
  first : ∀ s, image.spans.head? = some s → s.start = 0
  next : ∀ (k : Nat) (s t : Span), image.spans[k]? = some s → image.spans[k + 1]? = some t → t.start = s.start + s.size
  last : ∀ s, image.spans.getLast? = some s → s.start + s.size = image.words.length
  empty : image.spans = [] → image.words = []
  size : ∀ (k : Nat) (i : Instruction) (s : Span), program[k]? = some i → image.spans[k]? = some s →
    s.size = i.size ∧ i.takes s.size

theorem Draft.tiles_spansFrom (n start : Nat) (is : List Instruction) :
    Span.Tiles start (spansFrom n start is) (start + (Cell.slots (is.flatMap Instruction.cells)).length) := by
  induction is generalizing n start with
  | nil => exact .nil start
  | cons i is ih =>
    rw [List.flatMap_cons, Cell.slots_append, List.length_append, ← Nat.add_assoc]
    exact .cons (ih _ _)

theorem Draft.spansFrom_size {is : List Instruction} {n start k : Nat} {i : Instruction} {s : Span}
    (hi : is[k]? = some i) (hs : (spansFrom n start is)[k]? = some s) : s.size = (Cell.slots i.cells).length := by
  induction is generalizing n start k with
  | nil => cases hi
  | cons j is ih =>
    cases k with
    | zero =>
      cases hi
      cases hs
      rfl
    | succ k => exact ih hi hs

theorem Operand.extraWords_le (o : Operand) : o.extraWords ≤ 1 := by
  cases o with
  | immediate l =>
    cases l with
    | number w =>
      rw [extraWords]
      split <;> omega
    | label name => exact Nat.le_refl 1
  | _ => simp [extraWords]

theorem Instruction.takes_size (i : Instruction) : i.takes i.size := by
  cases i with
  | basic op b a =>
    have ha := a.extraWords_le
    have hb := b.extraWords_le
    simp only [takes, size]
    omega
  | special op a =>
    have ha := a.extraWords_le
    simp only [takes, size]
    omega
  | label name => rfl
  | _ => exact Int.natCast_nonneg _

/-- The spans of an image lie side by side over all of its words, and each is as long as its instruction. -/
theorem generate_spans {strict : Bool} {program : List Instruction} {image : Image}
    (h : generate strict program = .ok image) :
    image.spans = Draft.spansFrom 0 0 program ∧ Span.Tiles 0 image.spans image.words.length ∧
      ∀ (k : Nat) (i : Instruction) (s : Span), program[k]? = some i → image.spans[k]? = some s → s.size = i.size := by
  obtain ⟨-, -, -, hspans⟩ := generate_parts h
  obtain ⟨d, hd, rfl⟩ := generate_ok h
  obtain ⟨d₁, hadd, hpatch⟩ := layout_ok hd
  have hencodable := (addAll_ok_iff_layable.1 ⟨d₁, hadd⟩).encodable
  have hlength : d.image.words.length = 0 + (Cell.slots (program.flatMap Instruction.cells)).length := by
    rw [Draft.image, Array.length_toList, (Draft.patchAll_frame hpatch).1]
    exact (Draft.addAll_laid hadd).size
  rw [hspans, hlength]
  refine ⟨rfl, Draft.tiles_spansFrom 0 0 program, fun k i s hi hs => ?_⟩
  rw [Draft.spansFrom_size hi hs, Instruction.slots_length (hencodable i (List.mem_of_getElem? hi))]

/-- The spans of an image lie side by side, one for each instruction. So an address has an owner exactly if there is
a word at it, and its owner is the one span around it, which is never empty. -/
theorem generate_tiled_owner (strict : Bool) (program : List Instruction) (image : Image)
    (h : generate strict program = .ok image) :
    image.Tiled program ∧
    (∀ address, (∃ s, image.owner? address = some s) ↔ address.toNat < image.words.length) ∧
    (∀ address s, image.owner? address = some s ↔
      s ∈ image.spans ∧ s.start ≤ address.toNat ∧ (address.toNat : Int) < s.start + s.size) ∧
    ∀ address s, image.owner? address = some s → 0 < s.size := by
  obtain ⟨hspans, htiles, hsize⟩ := generate_spans h
  have howner : ∀ address s, image.owner? address = some s ↔
      s ∈ image.spans ∧ s.start ≤ address.toNat ∧ (address.toNat : Int) < s.start + s.size := by
    intro address s
    rw [Image.owner?, htiles.find_owner_iff, Span.owns_iff]
  refine ⟨⟨?_, fun k s hs => ?_, fun s hs => htiles.start_eq hs, fun k s t => htiles.next_start,
    fun s hs => htiles.last_stop hs, fun hnil => ?_, fun k i s hi hs => ?_⟩, fun address => ?_, howner, ?_⟩
  · rw [hspans, Draft.spansFrom_length]
  · rw [hspans] at hs
    rw [Draft.spansFrom_index hs]
    omega
  · rw [hnil] at htiles
    cases hlength : image.words with
    | nil => rfl
    | cons w ws =>
      rw [hlength] at htiles
      cases htiles
  · rw [hsize k i s hi hs]
    exact ⟨rfl, i.takes_size⟩
  · simp only [howner, ← Span.owns_iff]
    rw [htiles.exists_owner_iff]
    omega
  · intro address s hs
    have := (howner address s).1 hs
    omega

/-- Labels stand at the start of an operation, of data and at the end: the owners are the others. -/
theorem generate_tiled_owner_labels :
    let program : List Instruction :=
      [.label (Text.ofString "a"), .basic .set (.memory (.label (Text.ofString "b"))) (.immediate (.number 0x20)),
        .label (Text.ofString "b"), .data [.word 7, .word 8], .special .jsr (.register (.general 0)),
        .label (Text.ofString "c")]
    ∃ image, generate true program = .ok image ∧ image.Tiled program ∧ image.words.length = 6 ∧
      image.owner? 0 = some ⟨1, 0, 3⟩ ∧ image.owner? 3 = some ⟨3, 3, 2⟩ ∧ image.owner? 5 = some ⟨4, 5, 1⟩ ∧
      ¬ ∃ s, image.owner? 6 = some s := by
  intro program
  have himage : generate true program = .ok ⟨[0x7fc1, 0x20, 3, 7, 8, 0x0020],
      ⟨[(Text.ofString "c", 6), (Text.ofString "b", 3), (Text.ofString "a", 0)]⟩,
      [⟨0, 0, 0⟩, ⟨1, 0, 3⟩, ⟨2, 3, 0⟩, ⟨3, 3, 2⟩, ⟨4, 5, 1⟩, ⟨5, 6, 0⟩]⟩ := rfl
  obtain ⟨htiled, hexists, howner, -⟩ := generate_tiled_owner true program _ himage
  refine ⟨_, himage, htiled, rfl, (howner 0 _).2 ?_, (howner 3 _).2 ?_, (howner 5 _).2 ?_, fun h => ?_⟩
  · decide
  · decide
  · decide
  · exact absurd ((hexists 6).1 h) (by decide)

end Dcpu16
