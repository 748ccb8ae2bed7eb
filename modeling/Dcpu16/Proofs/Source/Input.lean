/-
Texts as lines. A line that ends in a line feed is split off whatever follows it, so the lines of a text of
terminated lines are those. What is read of an input starts with its first lines, as long as each of them
fits, and stops right after them where the next one does not fit or the input fails.
-/
import Mathlib.Data.List.TakeWhile
import Mathlib.Tactic.Common
import Dcpu16.Source.Basic

namespace Dcpu16.Input

/-! ## Splitting -/

theorem splitOnto_append (acc : List Text) (line t : Text) : splitOnto acc line t = splitOnto [] line t ++ acc := by
  induction t generalizing acc line with
  | nil =>
    rw [splitOnto, splitOnto]
    split <;> rfl
  | cons b t ih =>
    rw [splitOnto, splitOnto]
    split
    · rw [ih (line.reverse :: acc), ih [line.reverse], List.append_assoc]
      rfl
    · exact ih acc (b :: line)

theorem splitOnto_line {t : Text} (h : (10 : UInt8) ∉ t) (acc : List Text) (line rest : Text) :
    splitOnto acc line (t ++ 10 :: rest) = splitOnto ((line.reverse ++ t) :: acc) [] rest := by
  induction t generalizing line with
  | nil =>
    rw [List.nil_append, splitOnto, if_pos rfl, List.append_nil]
  | cons b t ih =>
    rw [List.mem_cons, not_or] at h
    rw [List.cons_append, splitOnto, if_neg (Ne.symm h.1), ih h.2, List.reverse_cons, List.append_assoc]
    rfl

/-- A line up to a line feed is the first one. -/
theorem split_line {t : Text} (h : (10 : UInt8) ∉ t) (rest : Text) : split (t ++ 10 :: rest) = t :: split rest := by
  rw [split, splitOnto_line h, splitOnto_append, List.reverse_append]
  rfl

/-- Lines that each end in a line feed. -/
theorem split_lines : ∀ {ts : List Text}, (∀ t ∈ ts, (10 : UInt8) ∉ t) → split (ts.flatMap (· ++ [10])) = ts
  | [], _ => rfl
  | t :: ts, h => by
    rw [List.flatMap_cons, List.append_assoc, List.singleton_append, split_line (h t List.mem_cons_self),
      split_lines fun u hu => h u (List.mem_cons_of_mem _ hu)]

/-! ## Reading -/

/-- The text starts with these lines, all of which fit. Nothing is said of what comes after them. -/
def Begins (input : Input) (lines : List Text) : Prop :=
  ∃ raws after, split input.text = raws ++ after ∧ (∀ raw ∈ raws, fits raw = true) ∧ lines = raws.map dropReturn

/-- Reading ends right after these lines, and not at the end of the text: the next line does not fit, or all lines
do and the input fails. -/
inductive StopsAfter (input : Input) (lines : List Text) : ReadError → Prop
  | tooLong {raws after : List Text} {long : Text} (text : split input.text = raws ++ long :: after)
      (fitting : ∀ raw ∈ raws, fits raw = true) (too_long : fits long = false) (read : lines = raws.map dropReturn) :
      StopsAfter input lines .lineTooLong
  | failure {message : Text} (fitting : ∀ raw ∈ split input.text, fits raw = true)
      (fails : input.failure = some message) (read : lines = (split input.text).map dropReturn) :
      StopsAfter input lines (.input message)

theorem Begins.lines_eq {input : Input} {ls : List Text} (h : input.Begins ls) : ∃ more, input.lines = ls ++ more := by
  obtain ⟨raws, after, htext, hfits, rfl⟩ := h
  refine ⟨(after.takeWhile fits).map dropReturn, ?_⟩
  rw [lines, htext, List.takeWhile_append_of_pos hfits, List.map_append]

theorem Begins.nil (input : Input) : input.Begins [] := ⟨[], split input.text, rfl, by simp, rfl⟩

theorem Begins.cons {t rest : Text} {failure : Option Text} {ls : List Text} (hline : (10 : UInt8) ∉ t)
    (hfits : fits t = true) (h : (⟨rest, failure⟩ : Input).Begins ls) :
    (⟨t ++ 10 :: rest, failure⟩ : Input).Begins (dropReturn t :: ls) := by
  obtain ⟨raws, after, htext, hall, rfl⟩ := h
  refine ⟨t :: raws, after, ?_, ?_, rfl⟩
  · rw [split_line hline, htext]
    rfl
  · intro raw hraw
    rcases List.mem_cons.1 hraw with rfl | hraw
    · exact hfits
    · exact hall raw hraw

theorem StopsAfter.lines_eq {input : Input} {ls : List Text} {err : ReadError} (h : input.StopsAfter ls err) :
    input.lines = ls ∧ input.error? = some err := by
  cases h with
  | @tooLong raws after long text fitting too_long read =>
    constructor
    · rw [lines, text, List.takeWhile_append_of_pos fitting, List.takeWhile_cons_of_neg (by simp [too_long]),
        List.append_nil, read]
    · rw [error?, if_neg]
      rw [text]
      simp [too_long]
  | failure fitting fails read =>
    constructor
    · rw [lines, List.takeWhile_eq_self_iff.2 fitting, read]
    · rw [error?, if_pos (List.all_eq_true.2 fitting), fails]
      rfl

end Dcpu16.Input
