/-
Where reading stops. Lines that are accepted are read one after the other and leave their equates; the first that is
wrong ends the reading with its own number, text and fault, and nothing after it is looked at, so that a later line
that does not fit or a failure of the input makes no difference. Where no line is wrong before reading has to stop, the
fault of the reading counts for the last line that was read.
-/
import Dcpu16.Proofs.Source.Input
import Dcpu16.Proofs.Source.Locations

namespace Dcpu16

namespace Progress

variable [Evaluator] {p q : Progress} {e e' : Equates} {n : Nat} {raws : List Text} {ls : List Located}

/-- The text of the last of some lines, or the one before them. -/
def lastLine (before : Text) (raws : List Text) : Text := (raws.map Line.clean).getLastD before

/-- Lines that can be read are read, and reading gets as far as the last of them. -/
theorem Reads.steps (h : Reads e n raws ls e') (hp : p.equates = e) (hn : p.number = n) :
    ∃ q, p.steps raws = .ok q ∧ q.equates = e' ∧ q.number = n + raws.length ∧ q.line = lastLine p.line raws := by
  induction h generalizing p with
  | nil e n => exact ⟨p, rfl, hp, hn, rfl⟩
  | @cons e e₁ e' n raw raws is ls line rest ih =>
    have hstep : ∃ p₁, p.step raw = .ok p₁ ∧ p₁.equates = e₁ ∧ p₁.number = n + 1 ∧ p₁.line = Line.clean raw := by
      unfold step
      simp only [hp, hn, line]
      exact ⟨_, rfl, rfl, rfl, rfl⟩
    obtain ⟨p₁, hp₁, hequates, hnumber, hline⟩ := hstep
    obtain ⟨q, hq, hqe, hqn, hql⟩ := ih hequates hnumber
    refine ⟨q, ?_, hqe, ?_, ?_⟩
    · rw [Progress.steps, hp₁]
      exact hq
    · rw [hqn, List.length_cons]
      omega
    · rw [hql, hline, lastLine, lastLine, List.map_cons, List.getLastD_cons]

/-- A line that is wrong after lines that were read. -/
theorem steps_fault (h : p.steps raws = .ok q) {raw : Text} {err : LineError}
    (hline : Line.parse q.equates (Line.clean raw) = .error err) (after : List Text) :
    p.steps (raws ++ raw :: after) = .error (err, { q with number := q.number + 1, line := Line.clean raw }) := by
  have hstep : q.step raw = .error (err, { q with number := q.number + 1, line := Line.clean raw }) := by
    unfold step
    simp only [hline]
  rw [steps_append, h]
  simp only
  rw [steps, hstep]

end Progress

namespace Source

open Progress

variable [Evaluator] {e e' : Equates} {before : List Text} {ls : List Located}

/-- The first line that is wrong decides, whatever comes after it. -/
theorem read_fault (h : Reads e 0 before ls e') {raw : Text} {err : LineError}
    (hline : Line.parse e' (Line.clean raw) = .error err) {input : Input} (hinput : input.Begins (before ++ [raw])) :
    (read e input).result = .error ⟨before.length + 1, Line.clean raw, .line err⟩ ∧ (read e input).equates = e' := by
  obtain ⟨more, hlines⟩ := hinput.lines_eq
  obtain ⟨q, hq, hequates, hnumber, -⟩ := h.steps (p := { equates := e }) rfl rfl
  have hsteps := steps_fault hq (hequates ▸ hline) more
  rw [List.append_assoc, List.singleton_append] at hlines
  unfold read
  simp only [hlines, hsteps, fault, hnumber, hequates]
  simp

/-- Where all lines that are read are accepted, the reason why reading stops counts for the last of them. -/
theorem read_stop (h : Reads e 0 before ls e') {input : Input} {err : ReadError} (hinput : input.StopsAfter before err) :
    (read e input).result = .error ⟨before.length, lastLine [] before, .read err⟩ ∧ (read e input).equates = e' := by
  obtain ⟨hlines, herror⟩ := hinput.lines_eq
  obtain ⟨q, hq, hequates, hnumber, hline⟩ := h.steps (p := { equates := e }) rfl rfl
  unfold read
  simp only [hlines, hq, herror, fault, hnumber, hequates, hline]
  simp

end Source

namespace Assembler

/-- After lines that are accepted, each by the equates that those before it left, one that is wrong ends the reading
of every input that begins with them, whatever comes after: the fault has the number and the text of that line, and the
equates are those before it. If the next line does not fit, or there is none and the input fails, the fault is that of the
reading, with the number and the text of the last line that was accepted; before the first there is none. -/
theorem parse_stops_first [Evaluator] (a : Assembler) (before : List Text) (ls : List Located) (e : Equates)
    (h : Progress.Reads a.initialEquates 0 before ls e) :
    (∀ raw err, Line.parse e (Line.clean raw) = .error err → ∀ input : Input, input.Begins (before ++ [raw]) →
      (a.parse input).1.result = .error ⟨before.length + 1, Line.clean raw, .line err⟩ ∧
      ∀ name, (a.parse input).2.equate? name = e.get? name) ∧
    ∀ (input : Input) err, input.StopsAfter before err →
      (a.parse input).1.result = .error ⟨before.length, Progress.lastLine [] before, .read err⟩ ∧
      ∀ name, (a.parse input).2.equate? name = e.get? name := by
  refine ⟨fun raw err hline input hinput => ?_, fun input err hinput => ?_⟩
  · obtain ⟨hresult, hequates⟩ := Source.read_fault h hline hinput
    exact ⟨hresult, fun name => congrArg (·.get? name) hequates⟩
  · obtain ⟨hresult, hequates⟩ := Source.read_stop h hinput
    exact ⟨hresult, fun name => congrArg (·.get? name) hequates⟩

/-- Two lines with an equate and a label, of which the first ends in a carriage return. A third that is wrong hides a
line that does not fit and a failure of the input; without it the line that does not fit counts for the second. -/
theorem parse_stops_first_too_long :
    let _ : Evaluator := ⟨fun _ _ => none⟩
    let a := ({} : Assembler).predefine (Text.ofString "n") (Text.ofString "5")
    let first := Text.ofString ".equ j n"
    let second := Text.ofString ":x SET A, j ; c"
    let third := Text.ofString " SET B ; no"
    let long : Text := List.replicate Input.lineLimit 120
    let wrong : Input :=
      ⟨(first ++ [13]) ++ 10 :: (second ++ 10 :: (third ++ 10 :: (long ++ [10]))), some (Text.ofString "disk")⟩
    let cut : Input := ⟨first ++ 10 :: (second ++ 10 :: (long ++ [10])), some (Text.ofString "disk")⟩
    (a.parse wrong).1.result = .error ⟨3, Text.ofString "SET B", .line .operandMissing⟩ ∧
    (a.parse wrong).2.equate? (Text.ofString "j") = some (Text.ofString "0x5") ∧
    (a.parse cut).1.result = .error ⟨2, Text.ofString ":x SET A, j", .read .lineTooLong⟩ := by
  intro _ a first second third long wrong cut
  have hreads : Progress.Reads a.initialEquates 0 [first, second] _ _ := .cons rfl (.cons rfl (.nil _ _))
  obtain ⟨hfault, hstop⟩ := parse_stops_first a [first, second] _ _ hreads
  have hwrong : wrong.Begins [first, second, third] :=
    .cons (by decide) (by decide) (.cons (by decide) (by decide) (.cons (by decide) (by decide) (.nil _)))
  have hlong : Input.fits long = false := by
    rw [Input.fits, List.length_replicate, decide_eq_false (Nat.lt_irrefl _)]
  have hsplit : Input.split cut.text = [first, second] ++ long :: [] := by
    have hone : (10 : UInt8) ∉ long := fun h => absurd (List.eq_of_mem_replicate h) (by decide)
    rw [show cut.text = first ++ 10 :: (second ++ 10 :: (long ++ 10 :: [])) from rfl, Input.split_line (by decide),
      Input.split_line (by decide), Input.split_line hone]
    rfl
  obtain ⟨hresult, hequate⟩ := hfault third .operandMissing rfl wrong hwrong
  exact ⟨hresult, hequate _, (hstop cut _ (.tooLong hsplit (by decide) hlong rfl)).1⟩

end Assembler

end Dcpu16
