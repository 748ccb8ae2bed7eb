/-
When a program has an image, and what is reported when it has none. The first pass accepts exactly the
programs that are `Layable`; it stops at the first instruction up to which the program is not, whatever
comes after it. The second pass fails only after a first pass that succeeded, at the first reference, in
the order of the words, whose label is not defined.
-/
import Dcpu16.Proofs.Image.Encodable

namespace Dcpu16

/-! ## What the passes ask for -/

/-- What the first pass asks of a program: every instruction can be encoded, all words lie in memory and so
does every label, and if that is refused, no label is defined twice. -/
structure Layable (strict : Bool) (program : List Instruction) : Prop where
  encodable : ∀ i ∈ program, i.encodable = true
  fits : programSize program ≤ memorySize
  low : ∀ p ∈ labelPositions 0 program, p.2 < memorySize
  distinct : strict = true → (definedNames program).Nodup

/-- The references of a program in the order of its words, each with the number of its instruction. -/
def emission (program : List Instruction) : List (Text × Nat) :=
  program.zipIdx.flatMap fun p => p.1.emitted.map (·, p.2)

/-- The label is defined nowhere in the program. -/
def isUndefined (program : List Instruction) (name : Text) : Bool := !(definedNames program).contains name

/-! ## New names -/

namespace Table

theorem get?_defineAll_eq_none {t : Table Word} {ps : List (Text × Nat)} {name : Text} :
    (t.defineAll ps).get? name = none ↔ name ∉ ps.map (·.1) ∧ t.get? name = none := by
  unfold defineAll
  rw [get?_insertAll, Option.or_eq_none_iff, List.lookup_eq_none_iff]
  refine and_congr_left fun _ => ?_
  simp only [List.mem_reverse, List.mem_map, bne_iff_ne, not_exists, not_and]
  constructor
  · intro h x hx he
    exact h _ ⟨x, hx, rfl⟩ he.symm
  · rintro h _ ⟨x, hx, rfl⟩ he
    exact h x hx he.symm

/-- The names are new to the table, and no two are the same. -/
def Fresh (t : Table Word) (names : List Text) : Prop := names.Nodup ∧ ∀ name ∈ names, t.get? name = none

theorem fresh_append {t : Table Word} {ps qs : List (Text × Nat)} :
    t.Fresh ((ps ++ qs).map (·.1)) ↔ t.Fresh (ps.map (·.1)) ∧ (t.defineAll ps).Fresh (qs.map (·.1)) := by
  unfold Fresh
  simp only [List.map_append, List.nodup_append, List.forall_mem_append, get?_defineAll_eq_none]
  constructor
  · rintro ⟨⟨hps, hqs, hne⟩, hold, hnew⟩
    exact ⟨⟨hps, hold⟩, hqs, fun name hname => ⟨fun hmem => hne name hmem name hname rfl, hnew name hname⟩⟩
  · rintro ⟨⟨hps, hold⟩, hqs, hnew⟩
    refine ⟨⟨hps, hqs, ?_⟩, hold, fun name hname => (hnew name hname).2⟩
    rintro x hx y hy rfl
    exact (hnew x hy).1 hx

theorem fresh_empty {names : List Text} : ({} : Table Word).Fresh names ↔ names.Nodup :=
  ⟨fun h => h.1, fun h => ⟨h, fun _ _ => rfl⟩⟩

end Table

/-! ## The first pass accepts -/

namespace Draft

/-- What the first pass asks of cells that start at an address, after some labels have been defined. -/
structure Accepts (strict : Bool) (labels : Table Word) (start : Nat) (cs : List Cell) : Prop where
  sound : ∀ e, Cell.fault e ∉ cs
  low : ∀ p ∈ Cell.definitions start cs, p.2 < memorySize
  fresh : strict = true → labels.Fresh ((Cell.definitions start cs).map (·.1))

variable {strict : Bool} {d d' : Draft}

theorem Accepts.of_no_definition {labels : Table Word} {start : Nat} {cs : List Cell} (hs : ∀ e, Cell.fault e ∉ cs)
    (hd : Cell.definitions start cs = []) : Accepts strict labels start cs :=
  ⟨hs, by simp [hd], by simp [hd, Table.Fresh]⟩

/-- Cells are accepted if the first of them are, and then the others after these. -/
theorem accepts_append {labels : Table Word} {start : Nat} {cs ds : List Cell} :
    Accepts strict labels start (cs ++ ds) ↔ Accepts strict labels start cs ∧
      Accepts strict (labels.defineAll (Cell.definitions start cs)) (start + (Cell.slots cs).length) ds := by
  constructor
  · rintro ⟨sound, low, fresh⟩
    rw [Cell.definitions_append] at low fresh
    exact ⟨⟨fun e he => sound e (List.mem_append_left _ he), fun p hp => low p (List.mem_append_left _ hp),
        fun hs => (Table.fresh_append.1 (fresh hs)).1⟩,
      ⟨fun e he => sound e (List.mem_append_right _ he), fun p hp => low p (List.mem_append_right _ hp),
        fun hs => (Table.fresh_append.1 (fresh hs)).2⟩⟩
  · rintro ⟨⟨sound, low, fresh⟩, ⟨sound', low', fresh'⟩⟩
    refine ⟨fun e he => (List.mem_append.1 he).elim (sound e) (sound' e), ?_, ?_⟩
    · rw [Cell.definitions_append]
      exact fun p hp => (List.mem_append.1 hp).elim (low p) (low' p)
    · rw [Cell.definitions_append]
      exact fun hs => Table.fresh_append.2 ⟨fresh hs, fresh' hs⟩

theorem place_ok_iff {c : Cell} (n : Nat) :
    (∃ d', d.place strict n c = .ok d') ↔ Accepts strict d.labels d.words.size [c] := by
  cases c with
  | word w => exact ⟨fun _ => .of_no_definition (by simp) rfl, fun _ => ⟨_, rfl⟩⟩
  | reference name => exact ⟨fun _ => .of_no_definition (by simp) rfl, fun _ => ⟨_, rfl⟩⟩
  | fault e =>
    constructor
    · rintro ⟨d', h⟩
      cases h
    · intro h
      exact absurd List.mem_cons_self (h.sound e)
  | define name =>
    have haccepts : Accepts strict d.labels d.words.size [.define name] ↔
        d.words.size < memorySize ∧ (strict = true → d.labels.get? name = none) :=
      ⟨fun h => ⟨h.low _ List.mem_cons_self, fun hs => (h.fresh hs).2 _ List.mem_cons_self⟩,
        fun h => ⟨by simp, by simpa [Cell.definitions] using h.1, by simpa [Cell.definitions, Table.Fresh] using h.2⟩⟩
    rw [haccepts, place, define]
    by_cases hm : memorySize ≤ d.words.size
    · simp [hm, Nat.not_lt.2 hm]
    · cases hl : d.labels.get? name <;> cases strict <;> simp [hm, Nat.not_le.1 hm]

theorem placeAll_ok_iff {cs : List Cell} (n : Nat) :
    (∃ d', d.placeAll strict n cs = .ok d') ↔ Accepts strict d.labels d.words.size cs := by
  induction cs generalizing d with
  | nil => exact ⟨fun _ => .of_no_definition (by simp) rfl, fun _ => ⟨d, rfl⟩⟩
  | cons c cs ih =>
    rw [← List.singleton_append, accepts_append, ← place_ok_iff n, List.singleton_append, placeAll]
    cases hc : d.place strict n c with
    | error e => simp
    | ok d₁ =>
      have placed := place_placed hc
      rw [← placed.labels, ← placed.size]
      simpa using ih

theorem add_ok_iff {i : Instruction} : (∃ d', d.add strict i = .ok d') ↔
    Accepts strict d.labels d.words.size i.cells ∧ d.words.size + (Cell.slots i.cells).length ≤ memorySize := by
  rw [← placeAll_ok_iff d.spans.size]
  unfold add
  simp only
  cases hp : d.placeAll strict d.spans.size i.cells with
  | error e => simp
  | ok d₁ =>
    rw [← (placeAll_placed hp).size]
    by_cases hm : memorySize < d₁.words.size
    · simp [hm, Nat.not_le.2 hm]
    · simp [hm, Nat.not_lt.1 hm]

/-- The first pass over instructions is one over all their cells, as long as there is room. -/
theorem addAll_ok_iff {is : List Instruction} (hd : d.words.size ≤ memorySize) :
    (∃ d', d.addAll strict is = .ok d') ↔ Accepts strict d.labels d.words.size (is.flatMap Instruction.cells) ∧
      d.words.size + (Cell.slots (is.flatMap Instruction.cells)).length ≤ memorySize := by
  induction is generalizing d with
  | nil => exact ⟨fun _ => ⟨(placeAll_ok_iff 0).1 ⟨d, rfl⟩, hd⟩, fun _ => ⟨d, rfl⟩⟩
  | cons i is ih =>
    rw [List.flatMap_cons, accepts_append, Cell.slots_append, List.length_append, addAll]
    cases hi : d.add strict i with
    | error e =>
      have hfail : ¬ ∃ d', d.add strict i = .ok d' := by simp [hi]
      rw [add_ok_iff] at hfail
      constructor
      · rintro ⟨d', h⟩
        cases h
      · rintro ⟨⟨haccepts, -⟩, hsize⟩
        exact absurd ⟨haccepts, by omega⟩ hfail
    | ok d₁ =>
      obtain ⟨haccepts, -⟩ := add_ok_iff.1 ⟨d₁, hi⟩
      obtain ⟨laid, hroom⟩ := add_laid hi
      have hlabels := laid.labels
      have hsize := laid.size
      rw [List.flatMap_singleton] at hlabels hsize
      rw [← hlabels, ← hsize, ← Nat.add_assoc, ← hsize]
      simpa [haccepts] using ih hroom

end Draft

/-! ## The first pass stops -/

namespace Draft

/-- Why the first pass stops at cells: a fault among them, no more room, or a label that is refused. -/
inductive Stops (strict : Bool) (cs : List Cell) : ImageError → Prop
  | fault {e : ImageError} (mem : Cell.fault e ∈ cs) : Stops strict cs e
  | tooLarge : Stops strict cs .tooLarge
  | duplicate (hs : strict = true) (name : Text) : Stops strict cs (.labelDuplicate name)

variable {strict : Bool} {d d' : Draft}

theorem Stops.mono {cs ds : List Cell} {e : ImageError} (h : Stops strict cs e) (hsub : ∀ c ∈ cs, c ∈ ds) :
    Stops strict ds e := by
  cases h with
  | fault mem => exact .fault (hsub _ mem)
  | tooLarge => exact .tooLarge
  | duplicate hs name => exact .duplicate hs name

theorem place_error {n : Nat} {c : Cell} {e : Halt ImageError} (h : d.place strict n c = .error e) :
    Stops strict [c] e.error := by
  cases c with
  | word w => cases h
  | reference name => cases h
  | fault err =>
    cases h
    exact .fault List.mem_cons_self
  | define name =>
    rw [place, define] at h
    split at h
    · cases h
      exact .tooLarge
    · simp only at h
      split at h
      · split at h
        · rename_i hs
          cases h
          exact .duplicate hs name
        · cases h
      · cases h

theorem placeAll_error {n : Nat} {cs : List Cell} {e : Halt ImageError} (h : d.placeAll strict n cs = .error e) :
    Stops strict cs e.error := by
  induction cs generalizing d with
  | nil => cases h
  | cons c cs ih =>
    rw [placeAll] at h
    split at h
    · exact (ih h).mono fun x hx => List.mem_cons_of_mem c hx
    · rename_i hc
      cases h
      exact (place_error hc).mono fun x hx => by simp_all

/-- A failure names the instruction that was to be added and its number. -/
theorem add_error {i : Instruction} {e : Halt InstructionError} (h : d.add strict i = .error e) :
    e.error.index = d.spans.size ∧ e.error.instruction = i ∧ Stops strict i.cells e.error.error := by
  unfold add at h
  simp only at h
  split at h
  · rename_i hp
    cases h
    exact ⟨rfl, rfl, placeAll_error hp⟩
  · split at h
    · cases h
      exact ⟨rfl, rfl, .tooLarge⟩
    · cases h

theorem addAll_append (is js : List Instruction) : d.addAll strict (is ++ js) =
    match d.addAll strict is with
    | .ok d' => d'.addAll strict js
    | .error e => .error e := by
  induction is generalizing d with
  | nil => rfl
  | cons i is ih =>
    rw [List.cons_append, addAll, addAll]
    cases d.add strict i with
    | error e => rfl
    | ok d₁ => exact ih

theorem addAll_error {is : List Instruction} {e : Halt InstructionError} (h : d.addAll strict is = .error e) :
    ∃ before i after d', is = before ++ i :: after ∧ d.addAll strict before = .ok d' ∧ d'.add strict i = .error e := by
  induction is generalizing d with
  | nil => cases h
  | cons i is ih =>
    rw [addAll] at h
    split at h
    · rename_i d₁ hi
      obtain ⟨before, j, after, d', rfl, hbefore, hj⟩ := ih h
      exact ⟨i :: before, j, after, d', rfl, by rw [addAll, hi]; exact hbefore, hj⟩
    · rename_i hi
      cases h
      exact ⟨[], i, is, d, rfl, rfl, hi⟩

theorem Laid.spans_size {is : List Instruction} (h : Laid is d d') : d'.spans.size = d.spans.size + is.length := by
  rw [← Array.length_toList, h.spans, List.length_append, spansFrom_length, Array.length_toList]

end Draft

/-- The first pass succeeds exactly on the programs that can be laid out. -/
theorem addAll_ok_iff_layable {strict : Bool} {program : List Instruction} :
    (∃ d, Draft.addAll strict {} program = .ok d) ↔ Layable strict program := by
  rw [Draft.addAll_ok_iff (Nat.zero_le _)]
  have hsound : (∀ e, Cell.fault e ∉ program.flatMap Instruction.cells) ↔ ∀ i ∈ program, i.encodable = true := by
    simp only [← Instruction.sound_iff, List.mem_flatMap, not_exists, not_and]
    exact ⟨fun h i hi e => h e i hi, fun h e i hi => h i hi e⟩
  constructor
  · rintro ⟨⟨sound, low, fresh⟩, fits⟩
    have hencodable := hsound.1 sound
    rw [definitions_program hencodable] at low fresh
    rw [slots_program hencodable] at fits
    exact ⟨hencodable, by simpa using fits, low, fun hs => Table.fresh_empty.1 (fresh hs)⟩
  · rintro ⟨hencodable, fits, low, distinct⟩
    rw [slots_program hencodable]
    refine ⟨⟨hsound.2 hencodable, ?_, ?_⟩, by simpa using fits⟩
    · rw [definitions_program hencodable]
      exact low
    · rw [definitions_program hencodable]
      exact fun hs => Table.fresh_empty.2 (distinct hs)

/-- Where the first pass stops: at the first instruction up to which the program cannot be laid out, and in the same
way whatever comes after it. -/
theorem addAll_error_first {strict : Bool} {program : List Instruction} {e : Halt InstructionError}
    (h : Draft.addAll strict {} program = .error e) :
    program[e.error.index]? = some e.error.instruction ∧
    (∀ n, Layable strict (program.take (n + 1)) ↔ n < e.error.index) ∧
    (∀ rest, Draft.addAll strict {} (program.take (e.error.index + 1) ++ rest) = .error e) ∧
    Draft.Stops strict e.error.instruction.cells e.error.error := by
  obtain ⟨before, i, after, d', rfl, hbefore, hi⟩ := Draft.addAll_error h
  obtain ⟨hindex, rfl, hstops⟩ := Draft.add_error hi
  rw [(Draft.addAll_laid hbefore).spans_size] at hindex
  have hlength : e.error.index = before.length := by simpa using hindex
  -- whatever follows, the pass gets through `before` and stops at the next instruction
  have hstop : ∀ rest, Draft.addAll strict {} (before ++ e.error.instruction :: rest) = .error e := by
    intro rest
    rw [Draft.addAll_append, hbefore]
    simp only [Draft.addAll, hi]
  rw [hlength]
  refine ⟨by simp, fun n => ?_, fun rest => ?_, hstops⟩
  · rw [← addAll_ok_iff_layable]
    by_cases hn : n < before.length
    · have htake : (before ++ e.error.instruction :: after).take (n + 1) = before.take (n + 1) :=
        List.take_append_of_le_length hn
      have hwhole := hbefore
      rw [← List.take_append_drop (n + 1) before, Draft.addAll_append] at hwhole
      rw [htake]
      refine ⟨fun _ => hn, fun _ => ?_⟩
      cases hd : Draft.addAll strict {} (before.take (n + 1)) with
      | ok d₁ => exact ⟨d₁, rfl⟩
      | error e' =>
        rw [hd] at hwhole
        cases hwhole
    · obtain ⟨k, rfl⟩ : ∃ k, n = before.length + k := ⟨n - before.length, by omega⟩
      rw [Nat.add_assoc, List.take_length_add_append, List.take_succ_cons, hstop]
      simp
  · rw [List.take_length_add_append, List.take_succ_cons, List.take_zero, List.append_assoc]
    exact hstop rest

/-! ## The second pass -/

namespace Draft

/-- The second pass fails at the first reference whose label is not known. -/
theorem patchAll_find (program : List Instruction) (rs : List Reference) (d : Draft) :
    match rs.find? (fun r => (d.labels.get? r.label).isNone) with
    | none => ∃ d', d.patchAll program rs = .ok d'
    | some r => ∃ left, d.patchAll program rs =
        .error ⟨⟨r.instruction, (program[r.instruction]?).getD .missing, .labelMissing r.label⟩, left⟩ := by
  induction rs generalizing d with
  | nil => exact ⟨d, rfl⟩
  | cons r rs ih =>
    rw [patchAll]
    cases hl : d.labels.get? r.label with
    | none => simp [hl, patch]
    | some w =>
      simp only [patch, hl, List.find?_cons, Option.isNone_some]
      exact ih { d with
        words := d.words.setIfInBounds r.position w, events := d.events.push (.patched r.position w r.label) }

end Draft

/-- The references that wait after the first pass are those of the program, in the order of its words. -/
theorem referencesFrom_emission {is : List Instruction} (h : ∀ i ∈ is, ∀ e, Cell.fault e ∉ i.cells) (n start : Nat) :
    (Draft.referencesFrom n start is).map (fun r => (r.label, r.instruction)) =
      (is.zipIdx n).flatMap fun p => p.1.emitted.map (·, p.2) := by
  induction is generalizing n start with
  | nil => rfl
  | cons i is ih =>
    rw [Draft.referencesFrom, List.map_append, Instruction.references_cells (h i List.mem_cons_self),
      ih fun j hj => h j (List.mem_cons_of_mem i hj), List.zipIdx_cons, List.flatMap_cons]

theorem mem_emission {program : List Instruction} {name : Text} {n : Nat} :
    (name, n) ∈ emission program ↔ ∃ i, program[n]? = some i ∧ name ∈ i.references := by
  simp only [emission, List.mem_flatMap, List.mem_map, Prod.mk.injEq, Prod.exists, List.mem_zipIdx_iff_getElem?]
  constructor
  · rintro ⟨i, k, hi, x, hx, rfl, rfl⟩
    exact ⟨i, hi, Instruction.mem_emitted.1 hx⟩
  · rintro ⟨i, hi, hname⟩
    exact ⟨i, n, hi, name, Instruction.mem_emitted.2 hname, rfl, rfl⟩

/-- After a first pass that succeeds, the first undefined reference decides. -/
theorem generate_of_layable {strict : Bool} {program : List Instruction} (h : Layable strict program) :
    match (emission program).find? (fun r => isUndefined program r.1) with
    | none => ∃ image, generate strict program = .ok image
    | some (name, n) => ∃ i, program[n]? = some i ∧ generate strict program = .error ⟨n, i, .labelMissing name⟩ := by
  obtain ⟨d, hd⟩ := addAll_ok_iff_layable.2 h
  have laid := Draft.addAll_laid hd
  have hpending : d.pending.toList = Draft.referencesFrom 0 0 program := laid.pending
  have hlabels : d.labels = ({} : Table Word).defineAll (labelPositions 0 program) := by
    rw [← definitions_program h.encodable]
    exact laid.labels
  have hundefined : ∀ name, (d.labels.get? name).isNone = isUndefined program name := by
    intro name
    rw [Bool.eq_iff_iff, Option.isNone_iff_eq_none, hlabels, Table.get?_defineAll_eq_none]
    simp only [isUndefined, definedNames, Bool.not_eq_true', List.contains_eq_mem, decide_eq_false_iff_not]
    exact and_iff_left rfl
  have hfind := Draft.patchAll_find program d.pending.toList d
  have hemission := referencesFrom_emission laid.sound 0 0
  simp only [hundefined] at hfind
  rw [show emission program = _ from hemission.symm, List.find?_map, ← hpending]
  simp only [Function.comp_def]
  cases hr : d.pending.toList.find? (fun r => isUndefined program r.label) with
  | none =>
    simp only [hr] at hfind
    obtain ⟨d', hd'⟩ := hfind
    exact ⟨d'.image, by simp [generate, layout, hd, hd']⟩
  | some r =>
    simp only [hr] at hfind
    obtain ⟨left, herr⟩ := hfind
    have hmem : (r.label, r.instruction) ∈ emission program := by
      rw [show emission program = _ from hemission.symm, ← hpending]
      exact List.mem_map_of_mem (List.mem_of_find?_eq_some hr)
    obtain ⟨i, hi, -⟩ := mem_emission.1 hmem
    refine ⟨i, hi, ?_⟩
    simp [generate, layout, hd, herr, hi]

/-! ## The verdict -/

theorem generate_of_not_layable {strict : Bool} {program : List Instruction} (h : ¬ Layable strict program) :
    ∃ e, Draft.addAll strict {} program = .error e ∧ generate strict program = .error e.error := by
  cases hadd : Draft.addAll strict {} program with
  | ok d => exact absurd (addAll_ok_iff_layable.1 ⟨d, hadd⟩) h
  | error e => exact ⟨e, rfl, by simp [generate, layout, hadd]⟩

/-- An error names its instruction, and why the first pass stops at it or the label that it misses. -/
theorem generate_error {strict : Bool} {program : List Instruction} {e : InstructionError}
    (h : generate strict program = .error e) : program[e.index]? = some e.instruction ∧
      (Draft.Stops strict e.instruction.cells e.error ∨ ∃ name, e.error = .labelMissing name) := by
  by_cases hlayable : Layable strict program
  · have hverdict := generate_of_layable hlayable
    split at hverdict
    · obtain ⟨image, himage⟩ := hverdict
      rw [h] at himage
      cases himage
    · rename_i name n _
      obtain ⟨i, hi, herr⟩ := hverdict
      rw [h] at herr
      cases herr
      exact ⟨hi, .inr ⟨name, rfl⟩⟩
  · obtain ⟨halt, hadd, herr⟩ := generate_of_not_layable hlayable
    rw [h] at herr
    cases herr
    obtain ⟨hat, -, -, hstops⟩ := addAll_error_first hadd
    exact ⟨hat, .inl hstops⟩

/-- The first pass never reports a missing label. -/
theorem Draft.Stops.ne_missing {strict : Bool} {i : Instruction} {e : ImageError} (h : Stops strict i.cells e)
    (name : Text) : e ≠ .labelMissing name := by
  rintro rfl
  cases h with
  | fault mem =>
    rcases Instruction.fault_cells mem with ⟨-, he⟩ | ⟨o, -, err, -, he⟩ | ⟨items, -, -, he⟩ <;> cases he

/-- A program has an image exactly if the first pass can lay it out and every label that it refers to is defined.
If the first pass cannot, the error is that of the first instruction up to which it cannot, whatever follows; it is
never a missing label. If it can, the error is the first reference, in the order of the words, to a label that is
not defined. -/
theorem generate_verdict (strict : Bool) (program : List Instruction) :
    (∀ part, (∃ d, Draft.addAll strict {} part = .ok d) ↔ Layable strict part) ∧
    ((∃ image, generate strict program = .ok image) ↔
      Layable strict program ∧ ∀ i ∈ program, ∀ name ∈ i.references, name ∈ definedNames program) ∧
    (¬ Layable strict program → ∃ e, generate strict program = .error e ∧
      program[e.index]? = some e.instruction ∧ (∀ n, Layable strict (program.take (n + 1)) ↔ n < e.index) ∧
      (∀ name, e.error ≠ .labelMissing name) ∧
      ∀ rest, generate strict (program.take (e.index + 1) ++ rest) = .error e) ∧
    (Layable strict program → ∀ name n, (emission program).find? (fun r => isUndefined program r.1) = some (name, n) →
      ∃ i, program[n]? = some i ∧ generate strict program = .error ⟨n, i, .labelMissing name⟩) := by
  refine ⟨fun part => addAll_ok_iff_layable, ⟨?_, ?_⟩, fun h => ?_, fun h name n hfind => ?_⟩
  · rintro ⟨image, himage⟩
    have hlayable : Layable strict program := by
      by_contra h
      obtain ⟨e, -, herr⟩ := generate_of_not_layable h
      rw [herr] at himage
      cases himage
    refine ⟨hlayable, fun i hi name hname => ?_⟩
    by_contra hnot
    -- an undefined reference would have been found, and none was
    have hverdict := generate_of_layable hlayable
    obtain ⟨n, hn⟩ := List.getElem?_of_mem hi
    cases hfind : (emission program).find? (fun r => isUndefined program r.1) with
    | none =>
      have hdefined := List.find?_eq_none.1 hfind (name, n) (mem_emission.2 ⟨i, hn, hname⟩)
      exact hdefined (by simpa [isUndefined] using hnot)
    | some r =>
      rw [hfind] at hverdict
      obtain ⟨j, -, herr⟩ := hverdict
      rw [herr] at himage
      cases himage
  · rintro ⟨hlayable, hdefined⟩
    have hverdict := generate_of_layable hlayable
    have hfind : (emission program).find? (fun r => isUndefined program r.1) = none := by
      rw [List.find?_eq_none]
      rintro ⟨name, n⟩ hr
      obtain ⟨i, hi, hname⟩ := mem_emission.1 hr
      simpa [isUndefined] using hdefined i (List.mem_of_getElem? hi) name hname
    rw [hfind] at hverdict
    exact hverdict
  · obtain ⟨e, hadd, herr⟩ := generate_of_not_layable h
    obtain ⟨hat, hfirst, hrest, hstops⟩ := addAll_error_first hadd
    exact ⟨e.error, herr, hat, hfirst, hstops.ne_missing, fun rest => by simp [generate, layout, hrest rest]⟩
  · have hverdict := generate_of_layable h
    rw [hfind] at hverdict
    exact hverdict

/-- A label is defined twice and another is missing. A strict first pass stops at the second definition whatever
follows; the other succeeds, and so the missing label is reported. -/
theorem generate_verdict_priority :
    let a := Text.ofString "a"
    let b := Text.ofString "b"
    let program : List Instruction := [.label a, .special .jsr (.immediate (.label b)), .label a]
    (∀ rest, generate true (program ++ rest) = .error ⟨2, .label a, .labelDuplicate a⟩) ∧
      generate false program = .error ⟨1, .special .jsr (.immediate (.label b)), .labelMissing b⟩ := by
  intro a b program
  constructor
  · have hnot : ¬ Layable true program := fun h => absurd (h.distinct rfl) (by decide)
    have hfirst : generate true program = .error ⟨2, .label a, .labelDuplicate a⟩ := rfl
    obtain ⟨e, herr, -, -, -, hrest⟩ := (generate_verdict true program).2.2.1 hnot
    rw [hfirst] at herr
    cases herr
    exact hrest
  · have hlayable : Layable false program := ⟨by decide, by decide, by decide, by simp⟩
    obtain ⟨i, hi, herr⟩ := (generate_verdict false program).2.2.2 hlayable b 1 (by decide)
    cases hi
    exact herr

end Dcpu16
