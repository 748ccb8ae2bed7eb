/-
Where the instructions of a source come from. Every line that is read gives some instructions, by the equates that
the lines before it left, and each of them is located at that line; so the places of a source that is accepted go
up along the lines, and the instructions at a line are those that it gives. A fault of the image is therefore always
reported at the line of its instruction.
-/
import Dcpu16.Proofs.Source.Faults

namespace Dcpu16

namespace Progress

variable [Evaluator]

/-! ## What lines give -/

/-- Lines after the first `n`, read by some equates, give these located instructions and leave the last equates. -/
inductive Reads : Equates → Nat → List Text → List Located → Equates → Prop
  | nil (e : Equates) (n : Nat) : Reads e n [] [] e
  | cons {e e' e'' : Equates} {n : Nat} {raw : Text} {raws : List Text} {is : List Instruction} {ls : List Located}
      (line : Line.parse e (Line.clean raw) = .ok (is, e')) (rest : Reads e' (n + 1) raws ls e'') :
      Reads e n (raw :: raws) (is.map (⟨·, n + 1, Line.clean raw⟩) ++ ls) e''

theorem step_ok {p q : Progress} {raw : Text} (h : p.step raw = .ok q) :
    ∃ is, Line.parse p.equates (Line.clean raw) = .ok (is, q.equates) ∧ q.number = p.number + 1 ∧
      q.located.toList = p.located.toList ++ is.map (⟨·, p.number + 1, Line.clean raw⟩) := by
  unfold step at h
  dsimp only at h
  split at h
  · cases h
  · rename_i is equates his
    cases h
    exact ⟨is, his, rfl, by simp⟩

theorem steps_reads {p q : Progress} {raws : List Text} (h : p.steps raws = .ok q) :
    ∃ ls, Reads p.equates p.number raws ls q.equates ∧ q.located.toList = p.located.toList ++ ls := by
  induction raws generalizing p with
  | nil =>
    cases h
    exact ⟨[], .nil _ _, by simp⟩
  | cons raw raws ih =>
    rw [steps] at h
    split at h
    · rename_i p₁ hp₁
      obtain ⟨is, hline, hnumber, hlocated⟩ := step_ok hp₁
      obtain ⟨ls, hreads, hls⟩ := ih h
      rw [hnumber] at hreads
      exact ⟨_, .cons hline hreads, by rw [hls, hlocated, List.append_assoc]⟩
    · cases h

namespace Reads

variable {e e' : Equates} {n : Nat} {raws : List Text} {ls : List Located}

/-- Each instruction is located at one of the lines. -/
theorem line (h : Reads e n raws ls e') {l : Located} (hl : l ∈ ls) :
    ∃ k raw, raws[k]? = some raw ∧ l.lineNumber = n + k + 1 ∧ l.line = Line.clean raw := by
  induction h with
  | nil => cases hl
  | @cons _ _ _ n raw raws is ls _ rest ih =>
    rcases List.mem_append.1 hl with hl | hl
    · obtain ⟨i, -, rfl⟩ := List.mem_map.1 hl
      exact ⟨0, raw, rfl, rfl, rfl⟩
    · obtain ⟨k, raw', hraw, hnumber, hline⟩ := ih hl
      exact ⟨k + 1, raw', hraw, by omega, hline⟩

theorem lt_lineNumber (h : Reads e n raws ls e') {l : Located} (hl : l ∈ ls) : n < l.lineNumber := by
  obtain ⟨k, -, -, hnumber, -⟩ := h.line hl
  omega

/-- The places go up. -/
theorem sorted (h : Reads e n raws ls e') : ls.Pairwise fun l m => l.lineNumber ≤ m.lineNumber := by
  induction h with
  | nil => exact .nil
  | @cons _ _ _ n raw raws is ls _ rest ih =>
    refine List.pairwise_append.2 ⟨List.pairwise_map.2 (List.pairwise_of_forall fun _ _ => le_rfl), ih, ?_⟩
    intro l hl m hm
    obtain ⟨i, -, rfl⟩ := List.mem_map.1 hl
    exact (rest.lt_lineNumber hm).le

/-- The instructions at a line are those that it gives by the equates before it. -/
theorem atLine (h : Reads e n raws ls e') {k : Nat} {raw : Text} (hraw : raws[k]? = some raw) {p : Progress}
    (hp : p.equates = e) :
    ∃ q is after, p.steps (raws.take k) = .ok q ∧ Line.parse q.equates (Line.clean raw) = .ok (is, after) ∧
      (ls.filter (·.lineNumber == n + k + 1)).map (·.instruction) = is := by
  induction h generalizing k p with
  | nil => cases hraw
  | @cons e e₁ e' n raw₀ raws is ls line rest ih =>
    cases k with
    | zero =>
      cases hraw
      -- the instructions of later lines have greater numbers
      have hlater : ls.filter (·.lineNumber == n + 1) = [] := by
        refine List.filter_eq_nil_iff.2 fun l hl => ?_
        have hlt := rest.lt_lineNumber hl
        simp only [beq_iff_eq]
        omega
      refine ⟨p, is, e₁, rfl, hp ▸ line, ?_⟩
      rw [List.filter_append, Nat.add_zero, hlater, List.append_nil, List.filter_eq_self.2 (by simp), List.map_map]
      exact List.map_id' is
    | succ k =>
      -- and those of the first line a smaller one
      have hfirst : (is.map (⟨·, n + 1, Line.clean raw₀⟩ : Instruction → Located)).filter
          (·.lineNumber == n + (k + 1) + 1) = [] := by
        refine List.filter_eq_nil_iff.2 fun l hl => ?_
        obtain ⟨i, -, rfl⟩ := List.mem_map.1 hl
        simp only [beq_iff_eq]
        omega
      have hstep : ∃ p₁, p.step raw₀ = .ok p₁ ∧ p₁.equates = e₁ := by
        unfold step
        simp only [hp, line]
        exact ⟨_, rfl, rfl⟩
      obtain ⟨p₁, hp₁, hequates⟩ := hstep
      obtain ⟨q, js, after, hq, hjs, hfilter⟩ := ih (k := k) hraw hequates
      refine ⟨q, js, after, ?_, hjs, ?_⟩
      · rw [List.take_succ_cons, steps, hp₁]
        exact hq
      · have hnumber : n + (k + 1) + 1 = n + 1 + k + 1 := by omega
        rw [List.filter_append, hfirst, List.nil_append, hnumber, hfilter]

end Reads

end Progress

/-! ## The places of a source -/

theorem Source.read_reads [Evaluator] {e : Equates} {input : Input} {s : Source} (h : (read e input).result = .ok s) :
    ∃ ls e', Progress.Reads e 0 input.lines ls e' ∧ s = Source.ofLocated ls := by
  unfold read at h
  dsimp only at h
  split at h
  · cases h
  · rename_i q hq
    split at h
    · cases h
    · cases h
      obtain ⟨ls, hreads, hlocated⟩ := Progress.steps_reads hq
      rw [hlocated]
      exact ⟨ls, q.equates, hreads, rfl⟩

/-- The instructions of a source with the number of a line. -/
def Source.atLine (s : Source) (number : Nat) : List Instruction :=
  ((s.lineNumbers.zip s.instructions).filter (·.1 == (number : Int))).map (·.2)

theorem Source.atLine_ofLocated (ls : List Located) (number : Nat) :
    (ofLocated ls).atLine number = (ls.filter (·.lineNumber == number)).map (·.instruction) := by
  unfold atLine ofLocated
  dsimp only
  have hnumber : ((·.1 == (number : Int)) ∘ fun l : Located => ((l.lineNumber : Int), l.instruction)) =
      (·.lineNumber == number) := by
    funext l
    rw [Function.comp_apply, Bool.eq_iff_iff, beq_iff_eq, beq_iff_eq, Int.natCast_inj]
  rw [List.zip_map', List.filter_map, hnumber, List.map_map]
  rfl

theorem Assembler.generate_of_layout {a : Assembler} {s : Source} {image : Image}
    (h : Dcpu16.generate a.strict s.instructions = .ok image) : (a.generate s).result = .ok image := by
  unfold Dcpu16.generate at h
  unfold Assembler.generate
  cases hlayout : layout a.strict s.instructions with
  | ok d =>
    rw [hlayout] at h
    cases h
    rfl
  | error halt =>
    rw [hlayout] at h
    cases h

theorem Assembler.generate_ofLocated {a : Assembler} {ls : List Located} {e : InstructionError}
    (h : Dcpu16.generate a.strict (Source.ofLocated ls).instructions = .error e) :
    ∃ l, ls[e.index]? = some l ∧ l.instruction = e.instruction ∧
      (a.generate (Source.ofLocated ls)).result = .error (.located ⟨l.lineNumber, l.line, .image e.error⟩) := by
  obtain ⟨hat, -⟩ := Dcpu16.generate_error h
  obtain ⟨l, hl, hlocate⟩ := Source.locate_ofLocated hat
  have hinstruction : (Source.ofLocated ls).instructions[e.index]? = some l.instruction := by
    rw [Source.ofLocated, List.getElem?_map, hl]
    rfl
  rw [hat] at hinstruction
  refine ⟨l, hl, (Option.some.inj hinstruction).symm, ?_⟩
  unfold Dcpu16.generate at h
  unfold Assembler.generate
  cases hlayout : layout a.strict (Source.ofLocated ls).instructions with
  | ok d =>
    rw [hlayout] at h
    cases h
  | error halt =>
    rw [hlayout] at h
    cases h
    exact congrArg Except.error hlocate

/-- A source that is accepted, whatever the predefines, has a place for each instruction. The numbers go up and
lie between one and the number of lines, the text is that of the line without its comment and the white space
around it, and the instructions at a line are those that the line gives by the equates of the lines before it. So
whatever assembler makes its image, an error of the layout is reported with the number and the text of the
line of its instruction, and with the cause that the layout gave. -/
theorem Assembler.parse_locations [Evaluator] (a : Assembler) (input : Input) (s : Source)
    (h : (a.parse input).1.result = .ok s) :
    s.lineNumbers.length = s.instructions.length ∧ s.lines.length = s.instructions.length ∧
    s.lineNumbers.Pairwise (· ≤ ·) ∧
    (∀ (i : Nat) (n : Int), s.lineNumbers[i]? = some n → 1 ≤ n ∧ n ≤ input.lines.length ∧
      ∃ raw, input.lines[n.toNat - 1]? = some raw ∧ s.lines[i]? = some (Line.clean raw)) ∧
    (∀ k raw, input.lines[k]? = some raw → ∃ p e,
      Progress.steps { equates := a.initialEquates } (input.lines.take k) = .ok p ∧
      Line.parse p.equates (Line.clean raw) = .ok (s.atLine (k + 1), e)) ∧
    ∀ b : Assembler,
      match Dcpu16.generate b.strict s.instructions with
      | .ok image => (b.generate s).result = .ok image
      | .error e => ∃ n line, s.instructions[e.index]? = some e.instruction ∧ s.lineNumbers[e.index]? = some n ∧
          s.lines[e.index]? = some line ∧ (b.generate s).result = .error (.located ⟨n, line, .image e.error⟩) := by
  obtain ⟨ls, e', hreads, rfl⟩ := Source.read_reads h
  refine ⟨by simp [Source.ofLocated], by simp [Source.ofLocated], ?_, fun i n hi => ?_, fun k raw hraw => ?_, fun b => ?_⟩
  · refine List.pairwise_map.2 (hreads.sorted.imp fun hle => ?_)
    exact Int.ofNat_le.2 hle
  · rw [Source.ofLocated, List.getElem?_map] at hi
    obtain ⟨l, hl, rfl⟩ := Option.map_eq_some_iff.1 hi
    obtain ⟨k, raw, hraw, hnumber, hline⟩ := hreads.line (List.mem_of_getElem? hl)
    have hk : k < input.lines.length := (List.getElem?_eq_some_iff.1 hraw).1
    refine ⟨by omega, by omega, raw, ?_, ?_⟩
    · rw [hnumber, ← hraw]
      congr 1
      omega
    · rw [Source.ofLocated, List.getElem?_map, hl, Option.map_some, hline]
  · obtain ⟨p, is, after, hp, his, hfilter⟩ := hreads.atLine hraw (p := { equates := a.initialEquates }) rfl
    rw [Nat.zero_add] at hfilter
    rw [Source.atLine_ofLocated, hfilter]
    exact ⟨p, after, hp, his⟩
  · cases himage : Dcpu16.generate b.strict (Source.ofLocated ls).instructions with
    | ok image => exact generate_of_layout himage
    | error e =>
      obtain ⟨l, hl, hinstruction, hlocated⟩ := generate_ofLocated himage
      refine ⟨l.lineNumber, l.line, ?_, ?_, ?_, hlocated⟩
      · rw [Source.ofLocated, List.getElem?_map, hl, Option.map_some, hinstruction]
      · rw [Source.ofLocated, List.getElem?_map, hl, Option.map_some]
      · rw [Source.ofLocated, List.getElem?_map, hl, Option.map_some]

/-- Lines that give nothing, and two labels on the line of an instruction that refers to one that is missing, which
only the second pass finds. -/
theorem Assembler.parse_locations_missing :
    let _ : Evaluator := ⟨fun _ _ => none⟩
    let input : Input := ⟨Text.ofString ".equ x 2 ; c\n\n:a b: SET A, later ; go\nend: DAT x\n", none⟩
    let set : Instruction := .basic .set (.register (.general 0)) (.immediate (.label (Text.ofString "later")))
    let third := Text.ofString ":a b: SET A, later"
    let fourth := Text.ofString "end: DAT x"
    let s : Source :=
      ⟨[.label (Text.ofString "a"), .label (Text.ofString "b"), set, .label (Text.ofString "end"), .data [.word 2]],
        [3, 3, 3, 4, 4], [third, third, third, fourth, fourth]⟩
    (({} : Assembler).parse input).1.result = .ok s ∧
    (∃ raw, input.lines[2]? = some raw ∧ some third = some (Line.clean raw)) ∧
    Dcpu16.generate false s.instructions = .error ⟨2, set, .labelMissing (Text.ofString "later")⟩ ∧
    (({} : Assembler).generate s).result =
      .error (.located ⟨3, third, .image (.labelMissing (Text.ofString "later"))⟩) := by
  intro _ input set third fourth s
  have hparse : (({} : Assembler).parse input).1.result = .ok s := ok_of_toOption (by decide +kernel)
  have herror : Dcpu16.generate false s.instructions = .error ⟨2, set, .labelMissing (Text.ofString "later")⟩ := rfl
  obtain ⟨-, -, -, hplaces, -, hgenerate⟩ := parse_locations {} input s hparse
  have hlocated := hgenerate {}
  rw [herror] at hlocated
  obtain ⟨n, line, -, hn, hline, hlocated⟩ := hlocated
  cases hn
  cases hline
  exact ⟨hparse, (hplaces 2 3 rfl).2.2, herror, hlocated⟩

end Dcpu16
