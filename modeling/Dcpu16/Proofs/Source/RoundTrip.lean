/-
Whole programs that are rendered and read again. The text of a program is one of its layouts, so reading it step by
step gives the program back with its line numbers, up to the first instruction that refers to a label of the system's
equate.
-/
import Dcpu16.Proofs.Source.Layout

namespace Dcpu16

/-! ## Rendered rows -/

/-- The text of a program: each instruction on a line of its own. -/
def renderLines (program : List Instruction) : Text := program.flatMap fun i => i.render ++ [10]

/-- A program as the source of its text. -/
def Source.rendered (program : List Instruction) : Source :=
  ⟨program, (List.range' 1 program.length).map fun (n : Nat) => (n : Int), program.map Instruction.render⟩

namespace Row

/-- An instruction on a line of its own. -/
def rendered (i : Instruction) : Row := ⟨some i, i.render⟩

theorem rendered_valid {i : Instruction} (h : i.wellFormed = true) (hfits : i.render.length < Input.lineLimit) :
    (rendered i).Valid where
  written := by
    have hwritten := Line.Written.instruction .nil (Instruction.spelled_render h) .nil .none (.inl rfl)
    rw [List.append_nil, List.append_nil, List.append_nil] at hwritten
    exact hwritten
  wellFormed j hj := by
    cases hj
    exact h
  fits := hfits

theorem join_rendered (program : List Instruction) : join (program.map rendered) = renderLines program := List.flatMap_map ..

end Row

theorem Line.clean_render {i : Instruction} (h : i.wellFormed = true) : clean i.render = i.render := by
  have htidy := (Instruction.spelled_render h).tidy h
  rw [clean, htidy.stripComment_eq, htidy.trim_eq]

theorem Source.ofRows_rendered {program : List Instruction} (h : ∀ i ∈ program, i.wellFormed = true) :
    ofRows (program.map Row.rendered) = rendered program := by
  have hnumbers : ∀ (n : Nat) (program : List Instruction),
      ((program.map Row.rendered).zipIdx n).filterMap (fun row => row.1.instruction.map fun _ => (row.2 : Int)) =
        (List.range' n program.length).map fun (n : Nat) => (n : Int) := by
    intro n program
    induction program generalizing n with
    | nil => rfl
    | cons i is ih => simp [List.zipIdx_cons, List.range'_succ, Row.rendered, ← ih (n + 1)]
  have hlines : (program.map Row.rendered).filterMap (fun row => row.instruction.map fun _ => Line.clean row.text) =
      program.map Instruction.render := by
    rw [List.filterMap_map, ← List.filterMap_eq_map]
    exact List.filterMap_congr fun i hi => congrArg some (Line.clean_render (h i hi))
  rw [ofRows, hnumbers, hlines, List.filterMap_map]
  simp [rendered, Row.rendered, Function.comp_def]

/-! ## Reading line by line -/

namespace Progress

theorem step_render_error [Evaluator] {p : Progress} (hp : p.equates = systemEquates) {i : Instruction} (h : i.wellFormed = true)
    (hms : memorySizeName ∈ i.references) :
    p.step i.render = .error (.notNumber memorySizeText, { p with number := p.number + 1, line := i.render }) := by
  unfold step
  simp only [Line.clean_render h, hp, Line.parse_spelled h (Instruction.spelled_render h), Equates.reread_of_mem hms]

theorem steps_append [Evaluator] (p : Progress) (raws raws' : List Text) :
    p.steps (raws ++ raws') =
      match p.steps raws with
      | .ok q => q.steps raws'
      | .error e => .error e := by
  induction raws generalizing p with
  | nil => rfl
  | cons raw raws ih =>
    rw [List.cons_append, steps, steps]
    cases p.step raw with
    | ok q => exact ih q
    | error e => rfl

end Progress

/-! ## Reading a rendered program -/

namespace Source

variable {program : List Instruction}

theorem rendered_rows_valid (h : ∀ i ∈ program, i.wellFormed = true)
    (hfits : ∀ i ∈ program, i.render.length < Input.lineLimit) : ∀ row ∈ program.map Row.rendered, row.Valid := by
  intro row hrow
  obtain ⟨i, hi, rfl⟩ := List.mem_map.1 hrow
  exact Row.rendered_valid (h i hi) (hfits i hi)

theorem rendered_rows_references (hms : ∀ i ∈ program, memorySizeName ∉ i.references) :
    ∀ row ∈ program.map Row.rendered, ∀ i ∈ row.instruction, memorySizeName ∉ i.references := by
  intro row hrow i hi
  obtain ⟨j, hj, rfl⟩ := List.mem_map.1 hrow
  obtain rfl : j = i := Option.some.inj hi
  exact hms j hj

theorem read_renderLines [Evaluator] (h : ∀ i ∈ program, i.wellFormed = true)
    (hfits : ∀ i ∈ program, i.render.length < Input.lineLimit) (hms : ∀ i ∈ program, memorySizeName ∉ i.references) :
    (read systemEquates ⟨renderLines program, none⟩).result = .ok (rendered program) := by
  rw [← Row.join_rendered, read_rows (rendered_rows_valid h hfits) (rendered_rows_references hms), ofRows_rendered h]

/-- The first instruction that refers to a label of the system's equate ends the reading at its line. -/
theorem read_renderLines_error [Evaluator] (h : ∀ i ∈ program, i.wellFormed = true)
    (hfits : ∀ i ∈ program, i.render.length < Input.lineLimit) {before after : List Instruction} {i : Instruction}
    (hprogram : program = before ++ i :: after) (hbefore : ∀ j ∈ before, memorySizeName ∉ j.references)
    (hms : memorySizeName ∈ i.references) :
    (read systemEquates ⟨renderLines program, none⟩).result =
      .error ⟨before.length + 1, i.render, .line (.notNumber memorySizeText)⟩ := by
  have hvalid := rendered_rows_valid h hfits
  have hi : i ∈ program := by simp [hprogram]
  have hreturn : Input.dropReturn i.render = i.render :=
    if_neg fun he => absurd (((Instruction.spelled_render (h i hi)).tidy (h i hi)).last 13 he) (by decide)
  obtain ⟨q, hsteps, hequates, hnumber, -⟩ := Progress.steps_rows (before.map Row.rendered)
    (p := { equates := systemEquates }) rfl
    (rendered_rows_valid (fun j hj => h j (by simp [hprogram, hj])) fun j hj => hfits j (by simp [hprogram, hj]))
    (rendered_rows_references hbefore)
  -- the lines before it are read, so it is the next one and its number is theirs plus one
  have hstep := Progress.step_render_error hequates (h i hi) hms
  have herror : Progress.steps { equates := systemEquates }
      ((program.map Row.rendered).map fun row => Input.dropReturn row.text) =
      .error (.notNumber memorySizeText, { q with number := q.number + 1, line := i.render }) := by
    rw [hprogram, List.map_append, List.map_append, Progress.steps_append, hsteps, List.map_cons, List.map_cons]
    simp only [Row.rendered, hreturn]
    rw [Progress.steps, hstep]
  unfold read
  simp only [← Row.join_rendered, Input.lines_rows hvalid, herror, Progress.fault, hnumber]
  simp

end Source

namespace Assembler

/-- A program of well-formed instructions, none of which refers to a label of the system's equate, is read
back from its text: the same instructions, on lines 1 to n, each with its text. -/
theorem parse_rendered_program [Evaluator] (strict verbose : Bool) (program : List Instruction)
    (h : ∀ i ∈ program, i.wellFormed = true ∧ memorySizeName ∉ i.references ∧ i.render.length < Input.lineLimit) :
    (({ strict, verbose } : Assembler).parse ⟨renderLines program, none⟩).1.result =
      .ok ⟨program, (List.range' 1 program.length).map fun (n : Nat) => (n : Int), program.map Instruction.render⟩ := by
  have hequates : ({ strict, verbose } : Assembler).initialEquates = systemEquates := rfl
  have hread := Source.read_renderLines (fun i hi => (h i hi).1) (fun i hi => (h i hi).2.2) fun i hi => (h i hi).2.1
  unfold parse
  rw [hequates]
  exact hread

/-- Labels named like operands and mnemonics, a register that no instruction can encode in brackets, and a
string of all that a scan looks for. -/
theorem parse_rendered_program_keywords :
    let _ : Evaluator := ⟨fun _ _ => none⟩
    let program : List Instruction :=
      [.label (Text.ofString "PUSH"), .basic .set (.offset .pc (.label (Text.ofString "pop")))
        (.memory (.label (Text.ofString "Peek"))), .special .jsr (.immediate (.label (Text.ofString "pick"))),
        .data [.string (Text.ofString "\"\\;,['\n\x00é"), .label (Text.ofString "SP"), .word 0x7fff],
        .basic .ifb .push .pop]
    (∀ i ∈ program, i.wellFormed = true ∧ memorySizeName ∉ i.references ∧ i.render.length < Input.lineLimit) ∧
    (({ strict := true } : Assembler).parse ⟨renderLines program, none⟩).1.result =
      .ok ⟨program, [1, 2, 3, 4, 5], program.map Instruction.render⟩ :=
  ⟨by decide +kernel, @parse_rendered_program ⟨fun _ _ => none⟩ true false _ (by decide +kernel)⟩

end Assembler

end Dcpu16
