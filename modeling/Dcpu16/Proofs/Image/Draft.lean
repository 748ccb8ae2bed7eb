/-
What laying out a program does to a draft. The first pass appends: the words of the cells with a zero
for each reference, one pending entry for each reference at the address of its zero, one label for each
definition at the address where it stands, one span for each instruction (`Placed` for the cells of one
instruction, `Laid` for a list of instructions). The second pass changes only the words that wait, and
each to the address of its label.
-/
import Mathlib.Tactic.Common
import Dcpu16.Image.Draft

namespace Dcpu16

/-! ## Cells by address -/

namespace Cell

/-- The words of cells in the first pass: a reference takes a zero. -/
def slots : List Cell → List Word
  | [] => []
  | .word w :: cs => w :: slots cs
  | .reference _ :: cs => 0 :: slots cs
  | .define _ :: cs | .fault _ :: cs => slots cs

/-- The definitions among cells that start at an address, each with its own. -/
def definitions (start : Nat) : List Cell → List (Text × Nat)
  | [] => []
  | .define name :: cs => (name, start) :: definitions start cs
  | .fault _ :: cs => definitions start cs
  | .word _ :: cs | .reference _ :: cs => definitions (start + 1) cs

/-- The references among cells of instruction `n` that start at an address. -/
def references (n start : Nat) : List Cell → List Reference
  | [] => []
  | .reference name :: cs => ⟨name, start, n⟩ :: references n (start + 1) cs
  | .word _ :: cs => references n (start + 1) cs
  | .define _ :: cs | .fault _ :: cs => references n start cs

/-- The words of cells once the addresses of labels are known. -/
def resolve? (labels : Table Word) : List Cell → Option (List Word)
  | [] => some []
  | .word w :: cs => (resolve? labels cs).map (w :: ·)
  | .reference name :: cs => (labels.get? name).bind fun w => (resolve? labels cs).map (w :: ·)
  | .define _ :: cs => resolve? labels cs
  | .fault _ :: _ => none

theorem slots_append (cs ds : List Cell) : slots (cs ++ ds) = slots cs ++ slots ds := by
  induction cs with
  | nil => rfl
  | cons c cs ih => cases c <;> simp [slots, ih]

theorem definitions_append (cs ds : List Cell) (start : Nat) :
    definitions start (cs ++ ds) = definitions start cs ++ definitions (start + (slots cs).length) ds := by
  induction cs generalizing start with
  | nil => rfl
  | cons c cs ih =>
    cases c <;> simp [definitions, slots, ih, Nat.add_assoc, Nat.add_comm 1]

theorem references_append (n : Nat) (cs ds : List Cell) (start : Nat) :
    references n start (cs ++ ds) = references n start cs ++ references n (start + (slots cs).length) ds := by
  induction cs generalizing start with
  | nil => rfl
  | cons c cs ih =>
    cases c <;> simp [references, slots, ih, Nat.add_assoc, Nat.add_comm 1]

end Cell

/-! ## Tables -/

theorem Table.insertAll_append {α : Type} (t : Table α) (ps qs : List (Text × α)) :
    t.insertAll (ps ++ qs) = (t.insertAll ps).insertAll qs :=
  List.foldl_append

/-- The labels that definitions leave: an address is kept as a word. -/
def Table.defineAll (t : Table Word) (ps : List (Text × Nat)) : Table Word :=
  t.insertAll (ps.map fun p => (p.1, p.2.toUInt16))

theorem Table.defineAll_append (t : Table Word) (ps qs : List (Text × Nat)) :
    t.defineAll (ps ++ qs) = (t.defineAll ps).defineAll qs := by
  unfold defineAll
  rw [List.map_append, insertAll_append]

/-! ## Placing the cells of an instruction -/

namespace Draft

/-- What placing the cells of instruction `n` adds to a draft. -/
structure Placed (n : Nat) (cs : List Cell) (d d' : Draft) : Prop where
  words : d'.words.toList = d.words.toList ++ Cell.slots cs
  pending : d'.pending.toList = d.pending.toList ++ Cell.references n d.words.size cs
  labels : d'.labels = d.labels.defineAll (Cell.definitions d.words.size cs)
  spans : d'.spans = d.spans
  low : ∀ p ∈ Cell.definitions d.words.size cs, p.2 < memorySize
  sound : ∀ e, Cell.fault e ∉ cs

theorem Placed.size {n : Nat} {cs : List Cell} {d d' : Draft} (h : Placed n cs d d') :
    d'.words.size = d.words.size + (Cell.slots cs).length := by
  rw [← Array.length_toList, h.words, List.length_append, Array.length_toList]

theorem Placed.nil (n : Nat) (d : Draft) : Placed n [] d d := by
  refine ⟨?_, ?_, rfl, rfl, ?_, ?_⟩ <;> simp [Cell.slots, Cell.references, Cell.definitions]

theorem Placed.append {n : Nat} {cs ds : List Cell} {d d' d'' : Draft} (h : Placed n cs d d')
    (h' : Placed n ds d' d'') : Placed n (cs ++ ds) d d'' := by
  have hp := h'.pending
  have hl := h'.labels
  have hlow := h'.low
  -- the later cells start at the address where the earlier ones end
  rw [h.size] at hp hl hlow
  refine ⟨?_, ?_, ?_, h'.spans.trans h.spans, ?_, ?_⟩
  · rw [h'.words, h.words, Cell.slots_append, List.append_assoc]
  · rw [hp, h.pending, Cell.references_append, List.append_assoc]
  · rw [hl, h.labels, Cell.definitions_append, Table.defineAll_append]
  · rw [Cell.definitions_append]
    intro p hp
    rcases List.mem_append.1 hp with hp | hp
    · exact h.low p hp
    · exact hlow p hp
  · intro e he
    exact (List.mem_append.1 he).elim (h.sound e) (h'.sound e)

theorem define_placed {strict : Bool} {d d' : Draft} {name : Text} (n : Nat) (h : d.define strict name = .ok d') :
    Placed n [.define name] d d' := by
  unfold define at h
  by_cases hm : memorySize ≤ d.words.size
  · rw [if_pos hm] at h; cases h
  rw [if_neg hm] at h
  have hlow : ∀ p ∈ Cell.definitions d.words.size [.define name], p.2 < memorySize := by
    simp only [Cell.definitions, List.mem_singleton]
    rintro p rfl
    exact Nat.not_le.1 hm
  simp only at h
  split at h
  · split at h
    · cases h
    · cases h
      refine ⟨?_, ?_, rfl, rfl, hlow, ?_⟩ <;> simp [Cell.slots, Cell.references]
  · cases h
    refine ⟨?_, ?_, rfl, rfl, hlow, ?_⟩ <;> simp [Cell.slots, Cell.references]

theorem place_placed {strict : Bool} {n : Nat} {d d' : Draft} {c : Cell} (h : d.place strict n c = .ok d') :
    Placed n [c] d d' := by
  cases c with
  | word w =>
    cases h
    refine ⟨?_, ?_, rfl, rfl, ?_, ?_⟩ <;> simp [Cell.slots, Cell.references, Cell.definitions]
  | reference name =>
    cases h
    refine ⟨?_, ?_, rfl, rfl, ?_, ?_⟩ <;> simp [Cell.slots, Cell.references, Cell.definitions]
  | define name => exact define_placed n h
  | fault e => cases h

theorem placeAll_placed {strict : Bool} {n : Nat} :
    ∀ {cs : List Cell} {d d' : Draft}, d.placeAll strict n cs = .ok d' → Placed n cs d d'
  | [], d, d', h => by
    cases h
    exact .nil n d
  | c :: cs, d, d', h => by
    rw [placeAll] at h
    cases hc : d.place strict n c with
    | error e => rw [hc] at h; cases h
    | ok d₁ =>
      rw [hc] at h
      exact (place_placed hc).append (placeAll_placed h)

/-! ## Adding instructions -/

/-- The references of instructions that start at number `n` and an address. -/
def referencesFrom (n start : Nat) : List Instruction → List Reference
  | [] => []
  | i :: is => Cell.references n start i.cells ++ referencesFrom (n + 1) (start + (Cell.slots i.cells).length) is

/-- The spans of instructions that start at number `n` and an address. -/
def spansFrom (n start : Nat) : List Instruction → List Span
  | [] => []
  | i :: is =>
    ⟨n, start, (Cell.slots i.cells).length⟩ :: spansFrom (n + 1) (start + (Cell.slots i.cells).length) is

theorem spansFrom_length (n start : Nat) (is : List Instruction) : (spansFrom n start is).length = is.length := by
  induction is generalizing n start with
  | nil => rfl
  | cons i is ih => rw [spansFrom, List.length_cons, ih, List.length_cons]

theorem spansFrom_index {is : List Instruction} {n start k : Nat} {s : Span}
    (h : (spansFrom n start is)[k]? = some s) : s.index = n + k := by
  induction is generalizing n start k with
  | nil => cases h
  | cons i is ih =>
    cases k with
    | zero =>
      cases h
      rfl
    | succ k =>
      rw [ih h]
      omega

/-- What adding instructions to a draft adds to it. -/
structure Laid (is : List Instruction) (d d' : Draft) : Prop where
  words : d'.words.toList = d.words.toList ++ Cell.slots (is.flatMap Instruction.cells)
  pending : d'.pending.toList = d.pending.toList ++ referencesFrom d.spans.size d.words.size is
  labels : d'.labels = d.labels.defineAll (Cell.definitions d.words.size (is.flatMap Instruction.cells))
  spans : d'.spans.toList = d.spans.toList ++ spansFrom d.spans.size d.words.size is
  low : ∀ p ∈ Cell.definitions d.words.size (is.flatMap Instruction.cells), p.2 < memorySize
  sound : ∀ i ∈ is, ∀ e, Cell.fault e ∉ i.cells

theorem Laid.size {is : List Instruction} {d d' : Draft} (h : Laid is d d') :
    d'.words.size = d.words.size + (Cell.slots (is.flatMap Instruction.cells)).length := by
  rw [← Array.length_toList, h.words, List.length_append, Array.length_toList]

theorem Laid.nil (d : Draft) : Laid [] d d := by
  refine ⟨?_, ?_, rfl, ?_, ?_, ?_⟩ <;> simp [Cell.slots, referencesFrom, spansFrom, Cell.definitions]

/-- Adding an instruction places all of its cells, and then records its span. -/
theorem add_place {strict : Bool} {d d' : Draft} {i : Instruction} (h : d.add strict i = .ok d') :
    ∃ d₁ span, d.placeAll strict d.spans.size i.cells = .ok d₁ ∧ d' = { d₁ with spans := d₁.spans.push span } := by
  unfold add at h
  simp only at h
  split at h
  · cases h
  · rename_i d₁ hplace
    split at h
    · cases h
    · cases h
      exact ⟨d₁, _, hplace, rfl⟩

theorem add_laid {strict : Bool} {d d' : Draft} {i : Instruction} (h : d.add strict i = .ok d') :
    Laid [i] d d' ∧ d'.words.size ≤ memorySize := by
  unfold add at h
  simp only at h
  cases hp : d.placeAll strict d.spans.size i.cells with
  | error e => rw [hp] at h; cases h
  | ok d₁ =>
    rw [hp] at h
    simp only at h
    split at h
    · cases h
    · rename_i hm
      cases h
      have placed := placeAll_placed hp
      refine ⟨⟨?_, ?_, ?_, ?_, ?_, ?_⟩, Nat.not_lt.1 hm⟩
      · simpa using placed.words
      · simpa [referencesFrom] using placed.pending
      · simpa using placed.labels
      · have hs := placed.size
        simp only [spansFrom, Array.toList_push, placed.spans]
        congr 3
        omega
      · simpa using placed.low
      · simpa using placed.sound

theorem Laid.cons {i : Instruction} {is : List Instruction} {d d' d'' : Draft} (h : Laid [i] d d')
    (h' : Laid is d' d'') : Laid (i :: is) d d'' := by
  have hsize := h.size
  have hspans : d'.spans.size = d.spans.size + 1 := by
    rw [← Array.length_toList, h.spans, List.length_append, Array.length_toList]
    rfl
  simp only [List.flatMap_cons, List.flatMap_nil, List.append_nil] at hsize
  obtain ⟨words, pending, labels, spans, low, sound⟩ := h
  obtain ⟨words', pending', labels', spans', low', sound'⟩ := h'
  -- everything about `is` is stated from the number and the address after `i`
  simp only [hspans, hsize, referencesFrom, spansFrom, List.flatMap_cons, List.flatMap_nil, List.append_nil]
    at words pending labels spans low pending' labels' spans' low'
  refine ⟨?_, ?_, ?_, ?_, ?_, ?_⟩
  · rw [words', words, List.flatMap_cons, Cell.slots_append, List.append_assoc]
  · rw [pending', pending, referencesFrom, List.append_assoc]
  · rw [labels', labels, List.flatMap_cons, Cell.definitions_append, Table.defineAll_append]
  · rw [spans', spans, spansFrom, List.append_assoc]
    rfl
  · rw [List.flatMap_cons, Cell.definitions_append]
    intro p hp
    rcases List.mem_append.1 hp with hp | hp
    · exact low p hp
    · exact low' p hp
  · intro j hj
    rcases List.mem_cons.1 hj with rfl | hj
    · exact sound j (List.mem_singleton_self j)
    · exact sound' j hj

theorem addAll_laid {strict : Bool} :
    ∀ {is : List Instruction} {d d' : Draft}, d.addAll strict is = .ok d' → Laid is d d'
  | [], d, d', h => by
    cases h
    exact .nil d
  | i :: is, d, d', h => by
    rw [addAll] at h
    cases hi : d.add strict i with
    | error e => rw [hi] at h; cases h
    | ok d₁ =>
      rw [hi] at h
      exact (add_laid hi).1.cons (addAll_laid h)

/-! ## Patching references -/

theorem patch_ok {program : List Instruction} {d d' : Draft} {r : Reference} (h : d.patch program r = .ok d') :
    ∃ w, d.labels.get? r.label = some w ∧ d'.words.toList = d.words.toList.set r.position w ∧
      d'.labels = d.labels ∧ d'.spans = d.spans := by
  unfold patch at h
  cases hl : d.labels.get? r.label with
  | none => rw [hl] at h; cases h
  | some w =>
    rw [hl] at h
    cases h
    exact ⟨w, rfl, by simp, rfl, rfl⟩

theorem patchAll_append {program : List Instruction} {d d' : Draft} {rs ss : List Reference}
    (h : d.patchAll program (rs ++ ss) = .ok d') :
    ∃ d₁, d.patchAll program rs = .ok d₁ ∧ d₁.patchAll program ss = .ok d' := by
  induction rs generalizing d with
  | nil => exact ⟨d, rfl, h⟩
  | cons r rs ih =>
    rw [List.cons_append, patchAll] at h
    rw [patchAll]
    cases hr : d.patch program r with
    | error e => rw [hr] at h; cases h
    | ok d₁ =>
      rw [hr] at h
      exact ih h

/-- The second pass turned the cells between `pre` and `post` into `ws`. -/
structure Patched (cs : List Cell) (ws pre post : List Word) (d d' : Draft) : Prop where
  resolved : Cell.resolve? d.labels cs = some ws
  words : d'.words.toList = pre ++ ws ++ post
  labels : d'.labels = d.labels
  spans : d'.spans = d.spans

/-- By induction on the cells, each of which moves one word from behind `pre` into it. -/
theorem patchAll_cells {program : List Instruction} {n : Nat} (post : List Word) :
    ∀ (cs : List Cell) (pre : List Word) (d d' : Draft), (∀ e, Cell.fault e ∉ cs) →
      d.words.toList = pre ++ Cell.slots cs ++ post →
      d.patchAll program (Cell.references n pre.length cs) = .ok d' → ∃ ws, Patched cs ws pre post d d'
  | [], pre, d, d', _, hw, h => by
    cases h
    exact ⟨[], rfl, by simpa [Cell.slots] using hw, rfl, rfl⟩
  | .word w :: cs, pre, d, d', hs, hw, h => by
    obtain ⟨ws, hp⟩ := patchAll_cells post cs (pre ++ [w]) d d' (fun e he => hs e (List.mem_cons_of_mem _ he))
      (by simpa [Cell.slots] using hw) (by simpa [Cell.references] using h)
    exact ⟨w :: ws, by simp [Cell.resolve?, hp.resolved], by simpa using hp.words, hp.labels, hp.spans⟩
  | .reference name :: cs, pre, d, d', hs, hw, h => by
    rw [Cell.references, patchAll] at h
    cases hr : d.patch program ⟨name, pre.length, n⟩ with
    | error e => rw [hr] at h; cases h
    | ok d₁ =>
      rw [hr] at h
      obtain ⟨w, hl, hset, labels, spans⟩ := patch_ok hr
      -- the zero right behind `pre` is the one that is set
      have hw₁ : d₁.words.toList = pre ++ [w] ++ Cell.slots cs ++ post := by
        rw [hset, hw]
        simp [Cell.slots]
      obtain ⟨ws, hp⟩ := patchAll_cells post cs (pre ++ [w]) d₁ d' (fun e he => hs e (List.mem_cons_of_mem _ he))
        hw₁ (by simpa using h)
      refine ⟨w :: ws, ?_, by simpa using hp.words, hp.labels.trans labels, hp.spans.trans spans⟩
      have hres := hp.resolved
      rw [labels] at hres
      simp [Cell.resolve?, hl, hres]
  | .define name :: cs, pre, d, d', hs, hw, h => by
    obtain ⟨ws, hp⟩ := patchAll_cells post cs pre d d' (fun e he => hs e (List.mem_cons_of_mem _ he)) hw h
    exact ⟨ws, hp.resolved, hp.words, hp.labels, hp.spans⟩
  | .fault e :: cs, pre, d, d', hs, hw, h => absurd List.mem_cons_self (hs e)

end Draft

theorem Cell.resolve_length {labels : Table Word} :
    ∀ {cs : List Cell} {ws : List Word}, resolve? labels cs = some ws → ws.length = (slots cs).length
  | [], ws, h => by cases h; rfl
  | .word w :: cs, ws, h => by
    obtain ⟨vs, hv, rfl⟩ := Option.map_eq_some_iff.1 h
    simp [slots, resolve_length hv]
  | .reference name :: cs, ws, h => by
    obtain ⟨w, -, h⟩ := Option.bind_eq_some_iff.1 h
    obtain ⟨vs, hv, rfl⟩ := Option.map_eq_some_iff.1 h
    simp [slots, resolve_length hv]
  | .define name :: cs, ws, h => by
    have hd : resolve? labels cs = some ws := h
    rw [slots, resolve_length hd]
  | .fault e :: cs, ws, h => by cases h

/-- The second pass over a whole program: each instruction becomes its resolved cells. -/
theorem Draft.patchAll_instructions {program : List Instruction} (post : List Word) :
    ∀ (is : List Instruction) (n : Nat) (pre : List Word) (d d' : Draft),
      (∀ i ∈ is, ∀ e, Cell.fault e ∉ i.cells) →
      d.words.toList = pre ++ Cell.slots (is.flatMap Instruction.cells) ++ post →
      d.patchAll program (referencesFrom n pre.length is) = .ok d' →
      ∃ parts, List.Forall₂ (fun i ws => Cell.resolve? d.labels i.cells = some ws) is parts ∧
        d'.words.toList = pre ++ parts.flatten ++ post ∧ d'.labels = d.labels ∧ d'.spans = d.spans
  | [], n, pre, d, d', _, hw, h => by
    cases h
    exact ⟨[], .nil, by simpa [Cell.slots] using hw, rfl, rfl⟩
  | i :: is, n, pre, d, d', hs, hw, h => by
    rw [List.flatMap_cons, Cell.slots_append] at hw
    obtain ⟨d₁, h₁, h₂⟩ := patchAll_append h
    obtain ⟨ws, hp⟩ := patchAll_cells (Cell.slots (is.flatMap Instruction.cells) ++ post) i.cells pre d d₁
      (hs i List.mem_cons_self) (by simpa using hw) h₁
    -- the resolved cells are as long as their zeros, so the addresses of the rest still hold
    have hlen := Cell.resolve_length hp.resolved
    obtain ⟨parts, hf, words, labels, spans⟩ := patchAll_instructions post is (n + 1) (pre ++ ws) d₁ d'
      (fun j hj => hs j (List.mem_cons_of_mem _ hj)) (by simpa using hp.words) (by simpa [hlen] using h₂)
    rw [hp.labels] at hf labels
    exact ⟨ws :: parts, .cons hp.resolved hf, by simpa using words, labels, spans.trans hp.spans⟩

end Dcpu16
