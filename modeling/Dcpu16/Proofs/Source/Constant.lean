/-
Equates are constants. A line that is read leaves the equates as they are or adds one with a new name, so an entry that is
there stays for the rest of the source. The name of an equate that was computed when it was defined is then
as good as its number, wherever a literal can stand on a later line.
-/
import Dcpu16.Proofs.Source.Locations
import Dcpu16.Proofs.Source.Position

namespace Dcpu16

/-! ## Ends of lines -/

namespace Text

theorem trimRight_of_trim {t : Text} (h : trim t = t) : trimRight t = t := by
  have hself := trimLeft_of_trim h
  rwa [trim, hself] at h

/-- The end of a text that has no white space at its end has none either. -/
theorem trimRight_back {u v : Text} (h : trimRight (u ++ v) = u ++ v) : trimRight v = v := by
  have hreversed : dropForms blankFormsReversed 0 (v.reverse ++ u.reverse) = v.reverse ++ u.reverse := by
    have hdrop := congrArg List.reverse h
    rwa [trimRight, List.reverse_reverse, List.reverse_append] at hdrop
  have hv : v.reverse = [] ∨ formLength blankFormsReversed v.reverse = 0 := by
    rcases formLength_dropForms blankFormsReversed (v.reverse ++ u.reverse) 0 with hnil | hzero
    · rw [hreversed] at hnil
      exact .inl (List.append_eq_nil_iff.1 hnil).1
    · rw [hreversed] at hzero
      exact .inr (formLength_front blankFormsReversed_heads (List.prefix_append _ _) hzero)
  rw [trimRight, dropForms_of_formLength hv, List.reverse_reverse]

theorem trim_back {u v : Text} (h : trim (u ++ v) = u ++ v) (hv : trimLeft v = v) : trim v = v := by
  rw [trim, hv]
  exact trimRight_back (trimRight_of_trim h)

end Text

/-! ## Definitions -/

namespace Line

/-- A line that defines a name as a text, with any labels in front. -/
inductive Defines (name text : Text) : Text → Prop
  | equ {word gap gap' : Text} (letters : word.SameLetters (Text.ofString ".equ")) (hgap : gap.IsBlank) (hne : gap ≠ [])
      (hname : Text.isName name = true) (hgap' : gap'.IsBlank) (hne' : gap' ≠ []) (htrim : Text.trim text = text)
      (htext : text ≠ []) : Defines name text (word ++ (gap ++ (name ++ (gap' ++ text))))
  | labelled {other label gap line : Text} (hlabel : IsLabel other label) (hother : Text.isName other = true)
      (hgap : gap.IsBlank) (hne : gap ≠ []) (more : Defines name text line) : Defines name text (label ++ (gap ++ line))

namespace Defines

variable {name text line : Text}

theorem isName (h : Defines name text line) : Text.isName name = true := by
  induction h with
  | equ _ _ _ hname => exact hname
  | labelled _ _ _ _ _ ih => exact ih

theorem trimLeft_eq (h : Defines name text line) : Text.trimLeft line = line := by
  cases h with
  | equ letters hgap hne =>
    have hword := IsMnemonic.of_letters letters rfl
    exact hword.unbroken.trimLeft_append hword.ne_nil (hgap.head_append hne _)
  | labelled hlabel hother hgap hne =>
    have hword := hlabel.unbroken hother
    exact hword.2.trimLeft_append hword.1 (hgap.head_append hne _)

/-- If the line is accepted, the name is new and gets the text, or its number. -/
theorem parse_ok [Evaluator] {e e' : Equates} {is : List Instruction} (h : Defines name text line)
    (htrim : Text.trim line = line) (hparse : parse e line = .ok (is, e')) : e' = e.insert name (e.settle text) := by
  induction h generalizing is with
  | @equ word gap gap' letters hgap hne hname hgap' hne' htext hnil =>
    have hword := Text.isName_word hname
    have hstart : Text.trimLeft (name ++ (gap' ++ text)) = name ++ (gap' ++ text) :=
      (Text.unbroken_of_solid hword.solid).trimLeft_append hword.ne_nil (hgap'.head_append hne' _)
    have hend : Text.trim (name ++ (gap' ++ text)) = name ++ (gap' ++ text) := by
      rw [← List.append_assoc word gap] at htrim
      exact Text.trim_back htrim hstart
    rw [parse_definition e letters hgap hne hname hgap' hne' htext hnil hend] at hparse
    split_ifs at hparse
    cases hparse
    rfl
  | @labelled other label gap line hlabel hother hgap hne more ih =>
    rw [parse_labelled e hlabel hother hgap (.inl hne), more.trimLeft_eq] at hparse
    obtain ⟨⟨js, e''⟩, hjs, heq⟩ := map_ok hparse
    cases heq
    refine ih ?_ hjs
    rw [← List.append_assoc label gap] at htrim
    exact Text.trim_back htrim more.trimLeft_eq

end Defines

end Line

/-! ## What reading does to equates -/

namespace Equates

/-- More equates: those that are there stay, and what is new has a name. -/
structure Extends (e e' : Equates) : Prop where
  kept : ∀ {name text}, e.get? name = some text → e'.get? name = some text
  named : e.Named → e'.Named

namespace Extends

variable {e e' e'' : Equates}

theorem refl (e : Equates) : Extends e e := ⟨id, id⟩

theorem trans (h : Extends e e') (h' : Extends e' e'') : Extends e e'' := ⟨h'.kept ∘ h.kept, h'.named ∘ h.named⟩

theorem insert {name : Text} (hname : Text.isName name = true) (hnew : e.get? name = none) (text : Text) :
    Extends e (e.insert name text) where
  kept := by
    intro other value hget
    rw [Table.get?_insert, if_neg]
    · exact hget
    · rintro rfl
      rw [hnew] at hget
      cases hget
  named h := h.insert hname text

end Extends

theorem define_extends [Evaluator] {e e' : Equates} {operands : Text} (h : e.define operands = .ok e') : Extends e e' := by
  unfold define at h
  dsimp only at h
  split_ifs at h with hsyntax hdefined hloop
  cases h
  simp only [not_or, Bool.not_eq_true, Bool.not_eq_false'] at hsyntax
  exact .insert hsyntax.2.2 (Option.not_isSome_iff_eq_none.1 hdefined) _

end Equates

theorem Line.parse_extends [Evaluator] {e e' : Equates} {line : Text} {is : List Instruction}
    (h : parse e line = .ok (is, e')) : Equates.Extends e e' := by
  unfold parse at h
  split at h
  · cases h
  · rename_i labels rest hlabels
    obtain ⟨⟨js, e''⟩, hstatement, heq⟩ := map_ok h
    cases heq
    unfold statement at hstatement
    dsimp only at hstatement
    split_ifs at hstatement
    · cases hstatement
      exact .refl e
    · obtain ⟨_, hdefine, heq⟩ := map_ok hstatement
      cases heq
      exact Equates.define_extends hdefine
    · obtain ⟨_, -, heq⟩ := map_ok hstatement
      cases heq
      exact .refl e
    · obtain ⟨_, -, heq⟩ := map_ok hstatement
      cases heq
      exact .refl e

namespace Progress

variable [Evaluator] {p q : Progress}

/-- How far reading got, with or without a fault. -/
def reached : Except (LineError × Progress) Progress → Progress
  | .ok q => q
  | .error (_, q) => q

theorem step_extends (p : Progress) (raw : Text) : Equates.Extends p.equates (reached (p.step raw)).equates := by
  unfold step
  dsimp only
  split
  · exact .refl _
  · rename_i is equates hparse
    exact Line.parse_extends hparse

theorem steps_extends (p : Progress) (raws : List Text) : Equates.Extends p.equates (reached (p.steps raws)).equates := by
  induction raws generalizing p with
  | nil => exact .refl _
  | cons raw raws ih =>
    have hstep := step_extends p raw
    rw [steps]
    cases hraw : p.step raw with
    | error fault =>
      rw [hraw] at hstep
      exact hstep
    | ok q =>
      rw [hraw] at hstep
      exact hstep.trans (ih q)

theorem steps_ok_extends {raws : List Text} (h : p.steps raws = .ok q) : Equates.Extends p.equates q.equates := by
  have hextends := steps_extends p raws
  rwa [h] at hextends

end Progress

theorem Source.read_equates [Evaluator] (e : Equates) (input : Input) :
    (read e input).equates = (Progress.reached (Progress.steps { equates := e } input.lines)).equates := by
  unfold read
  dsimp only
  cases Progress.steps { equates := e } input.lines with
  | error fault => rfl
  | ok p => cases input.error? <;> rfl

namespace Assembler

theorem initialEquates_named {a : Assembler} (h : ∀ entry ∈ a.predefines.entries, Text.isName entry.1 = true) :
    a.initialEquates.Named := by
  intro name text hget
  rw [initialEquates, Table.get?_insertAll] at hget
  rcases Option.or_eq_some_iff.1 hget with hfound | ⟨-, hsystem⟩
  · obtain ⟨front, back, hentries, -⟩ := List.lookup_eq_some_iff.1 hfound
    exact h (name, text) (List.mem_reverse.1 (by simp [hentries]))
  · exact Equates.systemEquates_named name text hsystem

/-- After a definition that was accepted, its entry is the same before every later line and when reading ends. If the value
was computed, the name and the number written in hexadecimal can be put for each other wherever a literal can stand on a
later line, whatever else has that name. -/
theorem equate_constant [Evaluator] (a : Assembler) (before later : List Text) (raw name text : Text) (p q : Progress)
    (hpredefines : ∀ entry ∈ a.predefines.entries, Text.isName entry.1 = true)
    (hbefore : Progress.steps { equates := a.initialEquates } before = .ok p)
    (hline : Line.Defines name text (Line.clean raw)) (hlater : p.steps (raw :: later) = .ok q) :
    q.equates.get? name = some (p.equates.settle text) ∧
    (∀ input : Input, input.Begins (before ++ raw :: later) →
      (a.parse input).2.equate? name = some (p.equates.settle text)) ∧
    ∀ w, p.equates.value (p.equates.expand text) = .ok w → ∀ line, Line.Position q.equates line →
      Line.parse q.equates (line name) = Line.parse q.equates (line w.render) := by
  have hsteps : Progress.steps { equates := a.initialEquates } (before ++ raw :: later) = .ok q := by
    rw [Progress.steps_append, hbefore]
    exact hlater
  have hget : q.equates.get? name = some (p.equates.settle text) := by
    rw [Progress.steps] at hlater
    split at hlater
    · rename_i p₁ hp₁
      obtain ⟨is, hparse, -, -⟩ := Progress.step_ok hp₁
      refine (Progress.steps_ok_extends hlater).kept ?_
      rw [hline.parse_ok (Text.trim_trim _) hparse, Table.get?_insert, if_pos rfl]
    · cases hlater
  refine ⟨hget, fun input hinput => ?_, fun w hw line hposition => ?_⟩
  · obtain ⟨more, hlines⟩ := hinput.lines_eq
    have hread := Source.read_equates a.initialEquates input
    rw [hlines, Progress.steps_append, hsteps] at hread
    have hkept := (Progress.steps_extends q more).kept hget
    rw [← hread] at hkept
    exact hkept
  · have hnamed : q.equates.Named := (Progress.steps_ok_extends hsteps).named (initialEquates_named hpredefines)
    have hsettled : p.equates.settle text = Text.ofString "0x" ++ Numeral.digits 16 w.toNat := by
      rw [Equates.settle, hw]
    rw [hsettled] at hget
    exact hposition.parse_eq hnamed (.of_get? hline.isName hget (Numeral.digits_denotes w)) (.render hnamed w)

/-- An equate with the name of a keyword, defined after a label by a predefine, and a label of the same name: the
name is the number beside a register, as an operand, in data and in another definition. -/
theorem equate_constant_keyword :
    let _ : Evaluator := ⟨fun _ _ => none⟩
    let a := ({} : Assembler).predefine (Text.ofString "base") (Text.ofString "4")
    let before := [Text.ofString ".equ one 1"]
    let raw := Text.ofString "y: .Equ Push\t base ; four"
    let later := [Text.ofString ":Push SET A, one"]
    let p := Progress.reached (Progress.steps { equates := a.initialEquates } before)
    let q := Progress.reached (p.steps (raw :: later))
    q.equates.get? (Text.ofString "Push") = some (Text.ofString "0x4") ∧
    Line.parse q.equates (Text.ofString "z: IFE Push , [ C -Push]") =
      Line.parse q.equates (Text.ofString "z: IFE Push , [ C -0x0004]") ∧
    Line.parse q.equates (Text.ofString "IFE Push , [ C -Push]") =
      Line.parse q.equates (Text.ofString "IFE 0x0004 , [ C -Push]") ∧
    Line.parse q.equates (Text.ofString ".dat \",\",Push") = Line.parse q.equates (Text.ofString ".dat \",\",0x0004") ∧
    Line.parse q.equates (Text.ofString ".equ two Push") = Line.parse q.equates (Text.ofString ".equ two 0x0004") := by
  intro _ a before raw later p q
  have hok : ∀ x : Except (LineError × Progress) Progress, x.toOption.isSome = true → x = .ok (Progress.reached x) := by
    rintro (fault | q) h
    · cases h
    · rfl
  have hspace : Text.IsBlank [32] := .of_chars [' '] (by decide)
  have hgap : Text.IsBlank [9, 32] := .of_chars ['\t', ' '] (by decide)
  have hname : Text.isName (Text.ofString "Push") = true := by decide
  have htext : Text.trim (Text.ofString "base") = Text.ofString "base" := by decide +kernel
  have hdefines : Line.Defines (Text.ofString "Push") (Text.ofString "base") (Line.clean raw) := by
    have hequ : (Text.ofString ".Equ").SameLetters (Text.ofString ".equ") := by decide +kernel
    have hline := Line.Defines.labelled (.back (Text.ofString "y")) (by decide) hspace (by decide)
      (.equ hequ hspace (by decide) hname hgap (by decide) htext (by decide))
    refine (congrArg (Line.Defines _ _) ?_).mp hline
    decide +kernel
  obtain ⟨hget, -, hplaces⟩ := equate_constant a before later raw (Text.ofString "Push") (Text.ofString "base") p q
    (by decide) (hok _ (by decide +kernel)) hdefines (hok _ (by decide +kernel))
  have hsettle : p.equates.settle (Text.ofString "base") = Text.ofString "0x4" := by decide +kernel
  have hvalue : p.equates.value (p.equates.expand (Text.ofString "base")) = .ok 4 := ok_of_toOption (by decide +kernel)
  -- a line with a place for a literal, and its text with the name there and with the number
  have hline : ∀ {line : Text → Text} {t u : Text}, Line.Position q.equates line → line (Text.ofString "Push") = t →
      line (Word.render 4) = u → Line.parse q.equates t = Line.parse q.equates u := by
    rintro line t u hposition rfl rfl
    exact hplaces 4 hvalue line hposition
  have hife : Line.IsMnemonic (Text.ofString "IFE") := .of_letters (.refl _) rfl
  have hdat : Line.IsMnemonic (Text.ofString ".dat") := .of_letters (.refl _) rfl
  have hregister : q.equates.register? (Text.ofString "C") = some (.general 2) := by decide +kernel
  have htwo : Text.isName (Text.ofString "two") = true := by decide
  have hpush : Text.Part 44 (Text.ofString "Push ") := ⟨by decide +kernel, Scan.avoids_separator (by decide) _⟩
  have hstring : Text.Part 44 (Text.literal (Text.ofString ",")) := (Text.Piece.literal _).part
  refine ⟨hsettle ▸ hget, ?_, ?_, ?_, ?_⟩
  · exact hline (.labelled (.back (Text.ofString "z")) (by decide) hspace (by decide)
      (.operand hife (by decide +kernel) hspace (by decide) (List.forall_mem_singleton.2 hpush) hspace
        (.afterMinus hregister hspace hspace .nil .nil) .nil (.inl rfl))) (by decide +kernel) (by decide +kernel)
  · exact hline (.operand hife (by decide +kernel) hspace (by decide) (List.forall_mem_nil _) .nil .whole hspace
      (.inr ⟨Text.ofString " [ C -Push]", rfl⟩)) (by decide +kernel) (by decide +kernel)
  · exact hline (.datum hdat (.inr (by decide +kernel)) hspace (by decide) (List.forall_mem_singleton.2 hstring) .nil .nil
      (.inl rfl)) (by decide +kernel) (by decide +kernel)
  · exact hline (.value (.refl _) hspace (by decide) htwo hspace (by decide))
      (by decide +kernel) (by decide +kernel)

end Assembler

end Dcpu16
