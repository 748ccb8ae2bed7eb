/-
The references that wait for an address, and what the second pass may touch. After any number of
instructions they stand in the order of their words, each on a zero word that its own instruction put there;
what is placed later only comes behind them. The second pass checks neither positions nor numbers of
instructions. It need not: it stays inside the words and the program, keeps the number of words, and changes
none but those that wait.
-/
import Mathlib.Data.List.Induction
import Dcpu16.Proofs.Image.Verdict

namespace Dcpu16

/-! ## References of cells -/

namespace Cell

/-- A reference stands on a zero among the words of its cells. -/
theorem zero_of_mem_references {n start : Nat} {r : Reference} {cs : List Cell} (h : r ∈ references n start cs) :
    r.instruction = n ∧ start ≤ r.position ∧ (slots cs)[r.position - start]? = some 0 := by
  induction cs generalizing start with
  | nil => cases h
  | cons c cs ih =>
    -- behind a word the positions count from the next address
    have hbehind : ∀ w, r ∈ references n (start + 1) cs →
        r.instruction = n ∧ start ≤ r.position ∧ (w :: slots cs)[r.position - start]? = some 0 := by
      intro w hr
      obtain ⟨hn, hle, hzero⟩ := ih hr
      obtain ⟨k, hk⟩ : ∃ k, r.position = start + 1 + k := ⟨r.position - (start + 1), by omega⟩
      rw [hk, Nat.add_sub_cancel_left] at hzero
      rw [hk, show start + 1 + k - start = k + 1 by omega]
      exact ⟨hn, by omega, hzero⟩
    cases c with
    | word w => exact hbehind w h
    | reference name =>
      rcases List.mem_cons.1 h with rfl | h
      · exact ⟨rfl, Nat.le_refl _, by simp [slots]⟩
      · exact hbehind 0 h
    | define name => exact ih h
    | fault e => exact ih h

theorem references_increasing (n start : Nat) (cs : List Cell) :
    (references n start cs).Pairwise (·.position < ·.position) := by
  induction cs generalizing start with
  | nil => exact .nil
  | cons c cs ih =>
    cases c with
    | word w => exact ih (start + 1)
    | reference name => exact .cons (fun r hr => (zero_of_mem_references hr).2.1) (ih (start + 1))
    | define name => exact ih start
    | fault e => exact ih start

end Cell

namespace Draft

variable {strict : Bool} {program : List Instruction} {d d' : Draft}

/-! ## The invariant -/

/-- Instruction `n` of the program puts a word at the address: the first pass comes to it with no more words than
that, and has the word after some of its cells. -/
def Produces (strict : Bool) (program : List Instruction) (n address : Nat) : Prop :=
  ∃ i part d d', program[n]? = some i ∧ part <+: i.cells ∧ addAll strict {} (program.take n) = .ok d ∧
    d.placeAll strict n part = .ok d' ∧ d.words.size ≤ address ∧ address < d'.words.size

/-- The references that wait in a draft of the program: their positions grow, their instructions do not go back, and
each stands on a zero that its instruction put there. -/
structure Waiting (strict : Bool) (program : List Instruction) (d : Draft) : Prop where
  increasing : d.pending.toList.Pairwise (·.position < ·.position)
  ordered : d.pending.toList.Pairwise (·.instruction ≤ ·.instruction)
  zero : ∀ r ∈ d.pending.toList, d.words[r.position]? = some 0
  present : ∀ r ∈ d.pending.toList, r.instruction < program.length
  produced : ∀ r ∈ d.pending.toList, Produces strict program r.instruction r.position

theorem Produces.append {n address : Nat} (h : Produces strict program n address) (is : List Instruction) :
    Produces strict (program ++ is) n address := by
  obtain ⟨i, part, d, d', hi, hpart, hadd, hplace, hlow, hhigh⟩ := h
  have hn : n < program.length := (List.getElem?_eq_some_iff.1 hi).1
  refine ⟨i, part, d, d', ?_, hpart, ?_, hplace, hlow, hhigh⟩
  · rw [List.getElem?_append_left hn, hi]
  · rw [List.take_append_of_le_length (Nat.le_of_lt hn), hadd]

theorem Waiting.position_lt (h : Waiting strict program d) {r : Reference} (hr : r ∈ d.pending.toList) :
    r.position < d.words.size :=
  (Array.getElem?_eq_some_iff.1 (h.zero r hr)).1

/-! ## The first pass keeps it -/

theorem Placed.words_begin {n : Nat} {cs : List Cell} (h : Placed n cs d d') :
    d.words.toList <+: d'.words.toList := by
  rw [h.words]
  exact List.prefix_append _ _

theorem Placed.word_eq {n k : Nat} {cs : List Cell} (h : Placed n cs d d') (hk : k < d.words.size) :
    d'.words[k]? = d.words[k]? := by
  rw [← Array.getElem?_toList, h.words, List.getElem?_append_left (by simpa using hk), Array.getElem?_toList]

theorem Placed.zero {n : Nat} {cs : List Cell} (h : Placed n cs d d') {r : Reference}
    (hr : r ∈ Cell.references n d.words.size cs) : d'.words[r.position]? = some 0 := by
  obtain ⟨-, hle, hzero⟩ := Cell.zero_of_mem_references hr
  rw [← Array.getElem?_toList, h.words, List.getElem?_append_right (by simpa using hle), Array.length_toList, hzero]

/-- What waits stays on its zero when more is placed, and what is placed comes behind it. -/
theorem Waiting.placeAll (h : Waiting strict program d) (hadd : addAll strict {} program = .ok d) {i : Instruction}
    {part : List Cell} (hpart : part <+: i.cells) (hplace : d.placeAll strict program.length part = .ok d') :
    Waiting strict (program ++ [i]) d' := by
  have placed := placeAll_placed hplace
  refine ⟨?_, ?_, ?_, ?_, ?_⟩ <;> rw [placed.pending]
  · refine List.pairwise_append.2 ⟨h.increasing, Cell.references_increasing _ _ _, fun r hr s hs => ?_⟩
    exact Nat.lt_of_lt_of_le (h.position_lt hr) (Cell.zero_of_mem_references hs).2.1
  · refine List.pairwise_append.2 ⟨h.ordered, ?_, fun r hr s hs => ?_⟩
    · refine List.Pairwise.imp_of_mem (fun hr hs _ => ?_) (Cell.references_increasing _ _ _)
      exact Nat.le_of_eq ((Cell.zero_of_mem_references hr).1.trans (Cell.zero_of_mem_references hs).1.symm)
    · rw [(Cell.zero_of_mem_references hs).1]
      exact Nat.le_of_lt (h.present r hr)
  · intro r hr
    rcases List.mem_append.1 hr with hr | hr
    · rw [placed.word_eq (h.position_lt hr), h.zero r hr]
    · exact placed.zero hr
  · intro r hr
    rw [List.length_append, List.length_singleton]
    rcases List.mem_append.1 hr with hr | hr
    · exact Nat.lt_succ_of_lt (h.present r hr)
    · rw [(Cell.zero_of_mem_references hr).1]
      exact Nat.lt_succ_self _
  · intro r hr
    rcases List.mem_append.1 hr with hr | hr
    · exact (h.produced r hr).append [i]
    · obtain ⟨hn, hle, -⟩ := Cell.zero_of_mem_references hr
      have hlt := (Array.getElem?_eq_some_iff.1 (placed.zero hr)).1
      rw [hn]
      exact ⟨i, part, d, d', by simp, hpart, by simpa using hadd, hplace, hle, hlt⟩

theorem Waiting.add (h : Waiting strict program d) (hadd : addAll strict {} program = .ok d) {i : Instruction}
    (hi : d.add strict i = .ok d') : Waiting strict (program ++ [i]) d' ∧ d.words.toList <+: d'.words.toList := by
  obtain ⟨d₁, span, hplace, rfl⟩ := add_place hi
  have hcount : d.spans.size = program.length := by simpa using (addAll_laid hadd).spans_size
  have hbegin := (placeAll_placed hplace).words_begin
  rw [hcount] at hplace
  obtain ⟨increasing, ordered, zero, present, produced⟩ := h.placeAll hadd List.prefix_rfl hplace
  exact ⟨⟨increasing, ordered, zero, present, produced⟩, hbegin⟩

/-- By induction on the instructions added so far, the last one apart. -/
theorem addAll_waiting (h : addAll strict {} program = .ok d) : Waiting strict program d := by
  induction program using List.reverseRecOn generalizing d with
  | nil =>
    cases h
    exact ⟨.nil, .nil, by simp, by simp, by simp⟩
  | append_singleton program i ih =>
    rw [addAll_append] at h
    split at h
    · rename_i d₀ hadd
      rw [addAll] at h
      split at h
      · rename_i d₁ hi
        cases h
        exact ((ih hadd).add hadd hi).1
      · cases h
    · cases h

/-! ## The second pass -/

/-- Patching keeps the number of words, and changes none but at the positions of the references. -/
theorem patchAll_frame {rs : List Reference} (h : d.patchAll program rs = .ok d') :
    d'.words.size = d.words.size ∧ ∀ k, (∀ r ∈ rs, r.position ≠ k) → d'.words[k]? = d.words[k]? := by
  induction rs generalizing d with
  | nil =>
    cases h
    exact ⟨rfl, fun _ _ => rfl⟩
  | cons r rs ih =>
    rw [patchAll] at h
    split at h
    · rename_i d₁ hr
      obtain ⟨w, -, hset, -, -⟩ := patch_ok hr
      obtain ⟨hsize, hframe⟩ := ih h
      refine ⟨?_, fun k hk => ?_⟩
      · rw [hsize, ← Array.length_toList, hset, List.length_set, Array.length_toList]
      · rw [hframe k fun s hs => hk s (List.mem_cons_of_mem r hs), ← Array.getElem?_toList, hset,
          List.getElem?_set_ne (hk r List.mem_cons_self), Array.getElem?_toList]
    · cases h

end Draft

/-- After any instructions the references wait in order, each on a zero word of its own instruction, and so they do
after any part of the next instruction; words that are there stay as they are. While the second pass goes through
the references, those still to come lie inside the words and the program, the number of words is the same, and
only words at the positions of references already patched have changed. -/
theorem pending_invariant_and_frame (strict : Bool) (program : List Instruction) (d : Draft)
    (h : Draft.addAll strict {} program = .ok d) :
    d.Waiting strict program ∧
    (∀ i d', d.add strict i = .ok d' → d'.Waiting strict (program ++ [i]) ∧ d.words.toList <+: d'.words.toList) ∧
    (∀ i part d', part <+: i.cells → d.placeAll strict program.length part = .ok d' →
      d'.Waiting strict (program ++ [i]) ∧ d.words.toList <+: d'.words.toList) ∧
    ∀ done rest d', d.pending.toList = done ++ rest → d.patchAll program done = .ok d' →
      (∀ r ∈ rest, r.position < d'.words.size ∧ r.instruction < program.length) ∧
      d'.words.size = d.words.size ∧ ∀ k, (∀ r ∈ done, r.position ≠ k) → d'.words[k]? = d.words[k]? := by
  have hwaiting := Draft.addAll_waiting h
  refine ⟨hwaiting, fun i d' hi => hwaiting.add h hi, fun i part d' hpart hplace => ?_,
    fun done rest d' hsplit hpatch => ?_⟩
  · exact ⟨hwaiting.placeAll h hpart hplace, (Draft.placeAll_placed hplace).words_begin⟩
  · obtain ⟨hsize, hframe⟩ := Draft.patchAll_frame hpatch
    refine ⟨fun r hr => ?_, hsize, hframe⟩
    have hmem : r ∈ d.pending.toList := hsplit ▸ List.mem_append_right done hr
    exact ⟨hsize ▸ hwaiting.position_lt hmem, hwaiting.present r hmem⟩

/-- Both operands of an operation wait, and behind data with a label in it one more. An instruction is added, and the
first of the three is patched. -/
theorem pending_invariant_and_frame_mixed :
    let program : List Instruction :=
      [.basic .set (.memory (.label (Text.ofString "b"))) (.immediate (.label (Text.ofString "a"))),
        .data [.word 7, .label (Text.ofString "a"), .word 8], .special .jsr (.immediate (.label (Text.ofString "b"))),
        .label (Text.ofString "b")]
    let done : List Reference := [⟨Text.ofString "a", 1, 0⟩]
    let rest : List Reference := [⟨Text.ofString "b", 2, 0⟩, ⟨Text.ofString "b", 6, 2⟩]
    ∃ d d₁ d₂, Draft.addAll true {} program = .ok d ∧ d.words.toList = [0x7fc1, 0, 0, 7, 8, 0x7c20, 0] ∧
      d.pending.toList = done ++ rest ∧ d.Waiting true program ∧
      d.add true (.data [.word 9]) = .ok d₁ ∧ d.words.toList <+: d₁.words.toList ∧
      d.patchAll program done = .ok d₂ ∧ d₂.words.toList = [0x7fc1, 4, 0, 7, 8, 0x7c20, 0] ∧
      ∀ r ∈ rest, r.position < d₂.words.size ∧ r.instruction < program.length := by
  intro program done rest
  have hd : Draft.addAll true {} program = .ok {
      words := #[0x7fc1, 0, 0, 7, 8, 0x7c20, 0]
      pending := #[⟨Text.ofString "a", 1, 0⟩, ⟨Text.ofString "b", 2, 0⟩, ⟨Text.ofString "b", 6, 2⟩]
      labels := ⟨[(Text.ofString "b", 7), (Text.ofString "a", 4)]⟩
      spans := #[⟨0, 0, 3⟩, ⟨1, 3, 2⟩, ⟨2, 5, 2⟩, ⟨3, 7, 0⟩]
      events := #[.defined (Text.ofString "a") 4, .defined (Text.ofString "b") 7] } := rfl
  obtain ⟨hwaiting, hadd, -, hpatch⟩ := pending_invariant_and_frame true program _ hd
  exact ⟨_, _, _, hd, rfl, rfl, hwaiting, rfl, (hadd (.data [.word 9]) _ rfl).2, rfl, rfl,
    (hpatch done rest _ rfl rfl).1⟩

end Dcpu16
