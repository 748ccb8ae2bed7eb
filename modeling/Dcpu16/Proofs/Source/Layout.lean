/-
Programs in any layout. On each line of a source stands one instruction in some spelling, with white space around it and a
comment after it, or nothing but white space and a comment; a line may end in a carriage return. Such a source is read as its
instructions, each with the number of its line, those without an instruction being counted.
-/
import Dcpu16.Proofs.Source.Input
import Dcpu16.Proofs.Source.Reread
import Dcpu16.Assembler

namespace Dcpu16

/-! ## Lines as they may be written -/

namespace Line

/-- A line with an instruction or with none, without its line feed. -/
inductive Written : Option Instruction → Text → Prop
  | instruction {i : Instruction} {s before after comment ending : Text} (hbefore : before.IsGap) (spelled : i.Spelled s)
      (hafter : after.IsGap) (hcomment : comment.IsComment) (hending : ending = [] ∨ ending = [13]) :
      Written (some i) ((before ++ (s ++ (after ++ comment))) ++ ending)
  | empty {gap comment ending : Text} (hgap : gap.IsGap) (hcomment : comment.IsComment)
      (hending : ending = [] ∨ ending = [13]) : Written none ((gap ++ comment) ++ ending)

theorem clean_ending {t ending : Text} (h : ending = [] ∨ ending = [13]) : clean (t ++ ending) = clean t := by
  rcases h with rfl | rfl
  · rw [List.append_nil]
  · rw [← clean_dropReturn (t ++ [13]), Input.dropReturn, if_pos (by simp), List.dropLast_concat]

theorem ending_oneLine {ending : Text} (h : ending = [] ∨ ending = [13]) : (10 : UInt8) ∉ ending := by
  rcases h with rfl | rfl <;> decide

namespace Written

theorem clean_instruction {i : Instruction} {t : Text} (hwf : i.wellFormed = true) (h : Written (some i) t) :
    i.Spelled (clean t) := by
  cases h with
  | instruction hbefore spelled hafter hcomment hending =>
    have htidy := spelled.tidy hwf
    rwa [clean_ending hending, clean_around hbefore.blank hafter.blank htidy.ends htidy.comment hcomment, htidy.trim_eq]

theorem clean_empty {t : Text} (h : Written none t) : clean t = [] := by
  cases h with
  | @empty gap comment ending hgap hcomment hending =>
    rw [clean_ending hending]
    exact clean_around (t := []) hgap.blank .nil rfl trivial hcomment

theorem oneLine {i? : Option Instruction} {t : Text} (hwf : ∀ i ∈ i?, i.wellFormed = true) (h : Written i? t) :
    (10 : UInt8) ∉ t := by
  cases h with
  | instruction hbefore spelled hafter hcomment hending =>
    simp only [List.mem_append, not_or]
    exact ⟨⟨hbefore.oneLine, (spelled.tidy (hwf _ rfl)).oneLine, hafter.oneLine, hcomment.oneLine⟩, ending_oneLine hending⟩
  | empty hgap hcomment hending =>
    simp only [List.mem_append, not_or]
    exact ⟨⟨hgap.oneLine, hcomment.oneLine⟩, ending_oneLine hending⟩

end Written

end Line

/-! ## Rows -/

/-- A line of a source and the instruction on it, if there is one. -/
structure Row where
  instruction : Option Instruction
  text : Text

namespace Row

/-- The text is written for the instruction, which is well-formed. -/
structure Valid (row : Row) : Prop where
  written : Line.Written row.instruction row.text
  wellFormed : ∀ i ∈ row.instruction, i.wellFormed = true
  fits : row.text.length < Input.lineLimit

/-- The rows of a source, each ended by a line feed. -/
def join (rows : List Row) : Text := rows.flatMap fun row => row.text ++ [10]

end Row

namespace Input

variable {rows : List Row}

theorem split_rows (h : ∀ row ∈ rows, row.Valid) : split (Row.join rows) = rows.map Row.text := by
  have hlines : ∀ t ∈ rows.map Row.text, (10 : UInt8) ∉ t := by
    intro t ht
    obtain ⟨row, hrow, rfl⟩ := List.mem_map.1 ht
    exact (h row hrow).written.oneLine (h row hrow).wellFormed
  have hsplit := split_lines hlines
  rwa [List.flatMap_map] at hsplit

theorem fits_rows (h : ∀ row ∈ rows, row.Valid) : ∀ t ∈ rows.map Row.text, fits t = true := by
  intro t ht
  obtain ⟨row, hrow, rfl⟩ := List.mem_map.1 ht
  exact decide_eq_true (h row hrow).fits

theorem lines_rows (h : ∀ row ∈ rows, row.Valid) (failure : Option Text) :
    (⟨Row.join rows, failure⟩ : Input).lines = rows.map fun row => dropReturn row.text := by
  unfold lines
  rw [split_rows h, List.takeWhile_eq_self_iff.2 (fits_rows h), List.map_map]
  rfl

theorem error_rows (h : ∀ row ∈ rows, row.Valid) (failure : Option Text) :
    (⟨Row.join rows, failure⟩ : Input).error? = failure.map .input := by
  unfold error?
  rw [split_rows h]
  exact if_pos (List.all_eq_true.2 (fits_rows h))

end Input

/-! ## Reading row by row -/

/-- The instructions of rows at their places, after `n` lines. -/
def Located.ofRows : Nat → List Row → List Located
  | _, [] => []
  | n, row :: rows =>
    match row.instruction with
    | some i => ⟨i, n + 1, Line.clean row.text⟩ :: ofRows (n + 1) rows
    | none => ofRows (n + 1) rows

/-- The source of rows. -/
def Source.ofRows (rows : List Row) : Source :=
  ⟨rows.filterMap Row.instruction,
    (rows.zipIdx 1).filterMap fun row => row.1.instruction.map fun _ => (row.2 : Int),
    rows.filterMap fun row => row.instruction.map fun _ => Line.clean row.text⟩

theorem Source.ofLocated_ofRows (rows : List Row) : Source.ofLocated (Located.ofRows 0 rows) = Source.ofRows rows := by
  have hall : ∀ (n : Nat) (rows : List Row),
      (Located.ofRows n rows).map (·.instruction) = rows.filterMap Row.instruction ∧
      (Located.ofRows n rows).map (fun l => (l.lineNumber : Int)) =
        (rows.zipIdx (n + 1)).filterMap (fun row => row.1.instruction.map fun _ => (row.2 : Int)) ∧
      (Located.ofRows n rows).map (·.line) =
        rows.filterMap fun row => row.instruction.map fun _ => Line.clean row.text := by
    intro n rows
    induction rows generalizing n with
    | nil => exact ⟨rfl, rfl, rfl⟩
    | cons row rows ih =>
      obtain ⟨h1, h2, h3⟩ := ih (n + 1)
      cases hi : row.instruction with
      | none => simp [Located.ofRows, hi, h1, h2, h3, List.zipIdx_cons]
      | some i => simp [Located.ofRows, hi, h1, h2, h3, List.zipIdx_cons]
  obtain ⟨h1, h2, h3⟩ := hall 0 rows
  rw [ofLocated, h1, h2, h3]
  rfl

namespace Progress

theorem step_row [Evaluator] {p : Progress} (hp : p.equates = systemEquates) {row : Row} (h : row.Valid)
    (hms : ∀ i ∈ row.instruction, memorySizeName ∉ i.references) :
    ∃ q, p.step (Input.dropReturn row.text) = .ok q ∧ q.equates = systemEquates ∧ q.number = p.number + 1 ∧
      q.located.toList = p.located.toList ++ Located.ofRows p.number [row] := by
  obtain ⟨i?, t⟩ := row
  unfold step
  simp only [Line.clean_dropReturn, hp]
  cases i? with
  | none =>
    rw [h.written.clean_empty]
    exact ⟨_, rfl, rfl, rfl, by simp [Located.ofRows]⟩
  | some i =>
    have hwf := h.wellFormed i rfl
    rw [Line.parse_spelled hwf (h.written.clean_instruction hwf), Equates.reread_of_not_mem (hms i rfl)]
    exact ⟨_, rfl, rfl, rfl, by simp [Located.ofRows]⟩

/-- Every row adds its instruction and leaves the equates alone. -/
theorem steps_rows [Evaluator] : ∀ (rows : List Row) {p : Progress}, p.equates = systemEquates → (∀ row ∈ rows, row.Valid) →
    (∀ row ∈ rows, ∀ i ∈ row.instruction, memorySizeName ∉ i.references) →
    ∃ q, p.steps (rows.map fun row => Input.dropReturn row.text) = .ok q ∧ q.equates = systemEquates ∧
      q.number = p.number + rows.length ∧ q.located.toList = p.located.toList ++ Located.ofRows p.number rows
  | [], p, hp, _, _ => ⟨p, rfl, hp, rfl, (List.append_nil _).symm⟩
  | row :: rows, p, hp, h, hms => by
    obtain ⟨p', hstep, hp', hnumber', hlocated'⟩ := step_row hp (h row List.mem_cons_self) (hms row List.mem_cons_self)
    obtain ⟨q, hq, hequates, hnumber, hlocated⟩ := steps_rows rows hp' (fun r hr => h r (List.mem_cons_of_mem _ hr))
      fun r hr => hms r (List.mem_cons_of_mem _ hr)
    refine ⟨q, ?_, hequates, ?_, ?_⟩
    · rw [List.map_cons, steps, hstep]
      exact hq
    · rw [hnumber, hnumber', List.length_cons]
      omega
    · rw [hlocated, hlocated', hnumber', List.append_assoc]
      cases hi : row.instruction <;> simp [Located.ofRows, hi]

end Progress

theorem Source.read_rows [Evaluator] {rows : List Row} (h : ∀ row ∈ rows, row.Valid)
    (hms : ∀ row ∈ rows, ∀ i ∈ row.instruction, memorySizeName ∉ i.references) :
    (read systemEquates ⟨Row.join rows, none⟩).result = .ok (ofRows rows) := by
  obtain ⟨q, hsteps, -, -, hlocated⟩ := Progress.steps_rows rows (p := { equates := systemEquates }) rfl h hms
  unfold read
  simp only [Input.lines_rows h, hsteps, Input.error_rows h, Option.map_none, hlocated]
  rw [List.nil_append, ofLocated_ofRows]

namespace Assembler

/-- Layout and letter case make no difference: however the instructions of a program are spelled, and with whatever white
space, comments and empty lines, they are read as the same instructions, each with the number of its line. -/
theorem parse_any_layout [Evaluator] (strict verbose : Bool) (rows : List Row)
    (h : ∀ row ∈ rows, Line.Written row.instruction row.text ∧ row.text.length < Input.lineLimit)
    (hprogram : ∀ i ∈ rows.filterMap Row.instruction, i.wellFormed = true ∧ memorySizeName ∉ i.references) :
    (({ strict, verbose } : Assembler).parse ⟨rows.flatMap fun row => row.text ++ [10], none⟩).1.result =
      .ok ⟨rows.filterMap Row.instruction,
        (rows.zipIdx 1).filterMap fun row => row.1.instruction.map fun _ => (row.2 : Int),
        rows.filterMap fun row => row.instruction.map fun _ => Line.clean row.text⟩ := by
  have hequates : ({ strict, verbose } : Assembler).initialEquates = systemEquates := rfl
  have hmem : ∀ row ∈ rows, ∀ i ∈ row.instruction, i ∈ rows.filterMap Row.instruction :=
    fun row hrow i hi => List.mem_filterMap.2 ⟨row, hrow, hi⟩
  have hread := Source.read_rows
    (fun row hrow => ⟨(h row hrow).1, fun i hi => (hprogram i (hmem row hrow i hi)).1, (h row hrow).2⟩)
    fun row hrow i hi => (hprogram i (hmem row hrow i hi)).2
  unfold parse
  rw [hequates]
  exact hread

/-- A comment of all that a scan looks for, white space that is not ASCII, letters of both cases, a semicolon in a
string, and a line that ends in a carriage return. -/
theorem parse_any_layout_mixed :
    let _ : Evaluator := ⟨fun _ _ => none⟩
    let rows : List Row :=
      [⟨none, Text.ofString "; SET \"A, ['"⟩,
        ⟨some (.basic .set (.offset (.general 1) (.number 0x1f)) (.immediate (.label (Text.ofString "loop")))),
          Text.ofString "\tsEt\u00a0\u2003[ b+0X001f\t] ,loop ; x\r"⟩,
        ⟨none, Text.ofString "  "⟩,
        ⟨some (.data [.string (Text.ofString "; a"), .label (Text.ofString "loop"), .word 0xab]),
          Text.ofString "dat \"; a\",:loop\t, 0x00Ab"⟩]
    (∀ row ∈ rows, Line.Written row.instruction row.text ∧ row.text.length < Input.lineLimit) ∧
    (({} : Assembler).parse ⟨rows.flatMap fun row => row.text ++ [10], none⟩).1.result =
      .ok ⟨[.basic .set (.offset (.general 1) (.number 0x1f)) (.immediate (.label (Text.ofString "loop"))),
          .data [.string (Text.ofString "; a"), .label (Text.ofString "loop"), .word 0xab]], [2, 4],
        [Text.ofString "sEt\u00a0\u2003[ b+0X001f\t] ,loop", Text.ofString "dat \"; a\",:loop\t, 0x00Ab"]⟩ := by
  intro _ rows
  have htab : Text.IsGap [9] := ⟨.of_chars ['\t'] (by decide), by decide⟩
  have hwide : Text.IsGap (Text.ofString "\u00a0\u2003") := ⟨.of_chars ['\u00a0', '\u2003'] (by decide), by decide⟩
  have hwritten : ∀ row ∈ rows, Line.Written row.instruction row.text ∧ row.text.length < Input.lineLimit := by
    simp only [rows, List.forall_mem_cons]
    refine ⟨⟨?_, by decide⟩, ⟨?_, by decide⟩, ⟨?_, by decide⟩, ⟨?_, by decide⟩, by simp⟩
    · have hline := Line.Written.empty .nil (.semicolon (t := Text.ofString " SET \"A, ['") (by decide)) (.inl rfl)
      exact hline
    · have hset : (Text.ofString "sEt").SameLetters BasicOp.set.name := by decide +kernel
      have hregister : (Text.ofString "b").SameLetters (Register.general 1).name := by decide +kernel
      have hnumber : (Text.ofString "0X001f").SameLetters (Word.render 0x1f) := by decide +kernel
      have hdestination := Operand.Spelled.offset .space hregister .nil .nil (.number hnumber) htab
      have hvalue := Operand.Spelled.immediate (.label (Text.ofString "loop"))
      have hline := Line.Written.instruction htab
        (.basic hset hwide (by decide) hdestination hvalue (.cons .space .nil (.one _))) .space
        (.semicolon (t := Text.ofString " x") (by decide)) (.inr rfl)
      refine (congrArg (Line.Written _) ?_).mp hline
      decide +kernel
    · have hblank : Text.IsGap [32, 32] := ⟨.of_chars [' ', ' '] (by decide), by decide⟩
      have hline := Line.Written.empty hblank .none (.inl rfl)
      exact hline
    · have hdat : (Text.ofString "dat").SameLetters (Text.ofString "DAT") := by decide +kernel
      have hword : (Text.ofString "0x00Ab").SameLetters (Word.render 0xab) := by decide +kernel
      have hline := Line.Written.instruction .nil
        (.data hdat .space (by decide)
          (.cons (.string (Text.ofString "; a")) (.cons (.label (Text.ofString "loop")) (.cons (.word hword) .nil)))
          (.cons .nil .nil (.cons htab .space (.one _)))) .nil .none (.inl rfl)
      refine (congrArg (Line.Written _) ?_).mp hline
      decide +kernel
  have hlines : (rows.filterMap fun row => row.instruction.map fun _ => Line.clean row.text) =
      [Text.ofString "sEt\u00a0\u2003[ b+0X001f\t] ,loop", Text.ofString "dat \"; a\",:loop\t, 0x00Ab"] := by decide +kernel
  have hparse := parse_any_layout false false rows hwritten (by decide +kernel)
  rw [hlines] at hparse
  exact ⟨hwritten, hparse⟩

end Assembler

end Dcpu16
