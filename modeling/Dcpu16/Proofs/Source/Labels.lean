/-
Labels in front of a line. Each is split off with the white space after it, so that the rest is shorter and the loop that
does it comes to an end, whatever the line is. The line after the labels is read as it would be alone: the labels add their
definitions in front of what it gives and change neither its equates nor its fault, and all of it has the place of the
whole line.
-/
import Dcpu16.Proofs.Source.Line
import Dcpu16.Source.Basic

namespace Dcpu16.Line

/-! ## The loop -/

/-- The runs of the loop that splits off labels, with no bound on its rounds. It stops at a word that defines no label and at
one that defines a label without a name. -/
inductive Peels : Text → Except LineError (List Text × Text) → Prop
  | stop {line : Text} (h : cutLabel? line = none) : Peels line (.ok ([], line))
  | invalid {line name rest : Text} (h : cutLabel? line = some (name, rest)) (hname : Text.isName name = false) :
      Peels line (.error .labelInvalid)
  | next {line name rest : Text} {outcome : Except LineError (List Text × Text)} (h : cutLabel? line = some (name, rest))
      (hname : Text.isName name = true) (more : Peels rest outcome) :
      Peels line (outcome.map fun cut => (name :: cut.1, cut.2))

/-- The loop comes to an end, since each label leaves a shorter line. -/
theorem peels_cutLabels (line : Text) : Peels line (cutLabels [] line.length line) := by
  cases hcut : cutLabel? line with
  | none =>
    rw [cutLabels_stop hcut]
    exact .stop hcut
  | some cut =>
    rw [cutLabels_cut hcut]
    split
    · rename_i hname
      exact .next hcut hname (peels_cutLabels cut.2)
    · rename_i hname
      exact .invalid hcut (Bool.eq_false_iff.2 hname)
termination_by line.length
decreasing_by exact cutLabel?_shorter hcut

theorem Peels.eq {line : Text} {outcome : Except LineError (List Text × Text)} (h : Peels line outcome) :
    outcome = cutLabels [] line.length line := by
  induction h with
  | stop hcut => rw [cutLabels_stop hcut]
  | invalid hcut hname => rw [cutLabels_cut hcut, hname, if_neg Bool.false_ne_true]
  | next hcut hname _ ih => rw [cutLabels_cut hcut, if_pos hname, ih]

/-- The loop has one outcome for every line, and it is the one that splitting with fuel finds. -/
theorem peels_iff {line : Text} {outcome : Except LineError (List Text × Text)} :
    Peels line outcome ↔ outcome = cutLabels [] line.length line := by
  constructor
  · exact Peels.eq
  · rintro rfl
    exact peels_cutLabels line

/-! ## Labels in front -/

/-- Labels in front of a text, each followed by white space. A label at the end of the line need not be. -/
inductive Labelled (rest : Text) : List Text → Text → Prop
  | bare : Labelled rest [] rest
  | label {name label gap line : Text} {names : List Text} (hlabel : IsLabel name label) (hname : Text.isName name = true)
      (hgap : gap.IsBlank) (hends : gap ≠ [] ∨ line = []) (more : Labelled rest names line) :
      Labelled rest (name :: names) (label ++ (gap ++ line))

namespace Labelled

variable {rest line : Text} {names : List Text}

/-- White space does not come first, since a label or the rest does. -/
theorem trimLeft_eq (h : Labelled rest names line) (hrest : Text.trimLeft rest = rest) : Text.trimLeft line = line := by
  cases h with
  | bare => exact hrest
  | @label name label gap line names hlabel hname hgap hends more =>
    obtain ⟨hne, hunbroken⟩ := hlabel.unbroken hname
    refine hunbroken.trimLeft_append hne ?_
    rcases hends with hgapne | rfl
    · exact hgap.head_append hgapne line
    · rw [List.append_nil]
      exact hgap.head_not_trail

theorem parse_eq [Evaluator] (e : Equates) (h : Labelled rest names line) (hrest : Text.trimLeft rest = rest) :
    parse e line = (parse e rest).map fun read => (names.map .label ++ read.1, read.2) := by
  induction h with
  | bare => cases parse e rest <;> rfl
  | label hlabel hname hgap hends more ih =>
    rw [parse_labelled e hlabel hname hgap hends, more.trimLeft_eq hrest, ih]
    cases parse e rest <;> rfl

/-- The loop takes off the labels one by one and stops at a word that defines none. -/
theorem peels (h : Labelled rest names line) (hrest : Text.trimLeft rest = rest) (hstop : cutLabel? rest = none) :
    Peels line (.ok (names, rest)) := by
  induction h with
  | bare => exact .stop hstop
  | label hlabel hname hgap hends more ih =>
    have hcut := cutLabel?_label hlabel hname hgap hends
    rw [more.trimLeft_eq hrest] at hcut
    exact .next hcut hname ih

end Labelled

/-! ## Lines of a source -/

/-- Labels in front of a line are taken off one by one and leave the rest of it. Reading the line gives their definitions, in
order, before what the rest gives alone, and the equates or the fault that the rest gives alone; in a source all of it has
the number and the text of the whole line. Taking off labels comes to an end for every line. -/
theorem parse_behind_labels [Evaluator] (e : Equates) (names : List Text) (rest line : Text) (h : Labelled rest names line)
    (htrim : Text.trim rest = rest) (hhead : (Text.cutBlank rest).1.head? ≠ some 58)
    (hlast : (Text.cutBlank rest).1.getLast? ≠ some 58) :
    Peels line (.ok (names, rest)) ∧
    parse e line = (parse e rest).map (fun read => (names.map .label ++ read.1, read.2)) ∧
    (∀ (p : Progress) (raw : Text), p.equates = e → clean raw = line →
      (∀ is e', parse e rest = .ok (is, e') → p.step raw = .ok
        { equates := e', number := p.number + 1, line,
          located := p.located ++ (names.map Instruction.label ++ is).toArray.map (⟨·, p.number + 1, line⟩) }) ∧
      ∀ err, parse e rest = .error err → p.step raw = .error (err, { p with number := p.number + 1, line })) ∧
    ∀ (any : Text) (outcome : Except LineError (List Text × Text)),
      Peels any outcome ↔ outcome = cutLabels [] any.length any := by
  have hrest := Text.trimLeft_of_trim htrim
  have hstop : cutLabel? rest = none := by
    unfold cutLabel?
    exact (if_neg hhead).trans (if_neg hlast)
  have hparse := h.parse_eq e hrest
  refine ⟨h.peels hrest hstop, hparse, ?_, fun _ _ => peels_iff⟩
  rintro p raw rfl hclean
  constructor
  · intro is e' hread
    rw [hread] at hparse
    unfold Progress.step
    simp only [hclean, hparse, Except.map]
  · intro err hread
    rw [hread] at hparse
    unfold Progress.step
    simp only [hclean, hparse, Except.map]

/-- Three labels of both spellings, with white space of several kinds, in front of a definition. -/
theorem parse_behind_labels_definition :
    let _ : Evaluator := ⟨fun _ _ => none⟩
    let names := [Text.ofString "x", Text.ofString "_y", Text.ofString "z.1"]
    let rest := Text.ofString ".EQU n 'a'"
    let line := Text.ofString "x:\u3000\t:_y \u0085z.1: .EQU n 'a'"
    Labelled rest names line ∧ Text.trim rest = rest ∧ (Text.cutBlank rest).1.head? ≠ some 58 ∧
    (Text.cutBlank rest).1.getLast? ≠ some 58 ∧ Peels line (.ok (names, rest)) ∧
    parse systemEquates line =
      .ok (names.map .label, systemEquates.insert (Text.ofString "n") (Text.ofString "0x61")) := by
  intro _ names rest line
  have hlabelled : Labelled rest names line := by
    have hspace : Text.IsBlank [32] := .of_chars [' '] (by decide)
    have hwide : Text.IsBlank [0xE3, 0x80, 0x80, 9] := .of_chars ['\u3000', '\t'] (by decide)
    have hnext : Text.IsBlank [32, 0xC2, 0x85] := .of_chars [' ', '\u0085'] (by decide)
    have hlabels := Labelled.label (.back (Text.ofString "x")) rfl hwide (.inl (by decide))
      (.label (.front (Text.ofString "_y")) rfl hnext (.inl (by decide))
        (.label (.back (Text.ofString "z.1")) rfl hspace (.inl (by decide)) (.bare : Labelled rest [] rest)))
    refine (congrArg (Labelled rest names) ?_).mp hlabels
    decide +kernel
  have htrim : Text.trim rest = rest := by decide +kernel
  have hhead : (Text.cutBlank rest).1.head? ≠ some 58 := by decide +kernel
  have hlast : (Text.cutBlank rest).1.getLast? ≠ some 58 := by decide +kernel
  have hread : parse systemEquates rest =
      .ok ([], systemEquates.insert (Text.ofString "n") (Text.ofString "0x61")) := rfl
  obtain ⟨hpeels, hparse, -⟩ := parse_behind_labels systemEquates names rest line hlabelled htrim hhead hlast
  rw [hread] at hparse
  exact ⟨hlabelled, htrim, hhead, hlast, hpeels, hparse⟩

end Dcpu16.Line
