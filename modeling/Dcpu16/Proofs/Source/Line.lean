/-
Lines by their words. A comment and the white space at the ends of a line are dropped, and so is a carriage return there.
A line that starts with the definition of a label is read as the label and then as the line after it; one that starts with
another word, followed by white space, is a directive or an instruction with the rest of the line as its operands.
-/
import Dcpu16.Proofs.Text.Token
import Dcpu16.Source.Basic
import Dcpu16.Source.Line

namespace Dcpu16

/-! ## Comments and line ends -/

namespace Text

/-- A comment up to the end of a line, or none. -/
inductive IsComment : Text → Prop
  | none : IsComment []
  | semicolon {t : Text} (oneLine : (10 : UInt8) ∉ t) : IsComment (59 :: t)

theorem IsComment.oneLine {t : Text} (h : IsComment t) : (10 : UInt8) ∉ t := by
  cases h with
  | none => simp
  | semicolon honeLine => simpa using honeLine

theorem stripComment_comment {t comment : Text} (hends : Scan.run {} t = {}) (havoids : Scan.Avoids Scan.commentAt {} t)
    (h : IsComment comment) : stripComment (t ++ comment) = t := by
  have hcomment : stripComment comment = [] := by
    cases h with
    | none => rfl
    | semicolon _ => rfl
  rw [stripComment_append (by rw [hends]; rfl) havoids, hcomment, List.append_nil]

/-- One more byte at the end is kept or belongs to a comment. -/
theorem stripComment_concat {x : UInt8} (hx : x ≠ 59) (t : Text) :
    stripComment (t ++ [x]) = stripComment t ∨ stripComment (t ++ [x]) = stripComment t ++ [x] := by
  have hgo : ∀ (s : Scan) (kept : Text), stripComment.go s kept (t ++ [x]) = stripComment.go s kept t ∨
      stripComment.go s kept (t ++ [x]) = stripComment.go s kept t ++ [x] := by
    induction t with
    | nil =>
      intro s kept
      have hne : x ≠ byte ';' := hx
      refine .inr ?_
      simp [stripComment.go, hne]
    | cons b t ih =>
      intro s kept
      rw [List.cons_append, stripComment.go, stripComment.go]
      split
      · exact .inl rfl
      · exact ih _ _
  exact hgo {} []

end Text

namespace Line

/-- A carriage return at the end of a line makes no difference. -/
theorem clean_dropReturn (t : Text) : clean (Input.dropReturn t) = clean t := by
  rw [Input.dropReturn]
  split
  · rename_i hlast
    obtain ⟨u, rfl⟩ := List.getLast?_eq_some_iff.1 hlast
    rw [List.dropLast_concat, clean, clean]
    rcases Text.stripComment_concat (x := 13) (by decide) u with heq | heq
    · rw [heq]
    · have hreturn : Text.IsBlank [13] := .of_chars ['\r'] (by decide)
      have htrim := Text.trim_blank .nil hreturn (Text.stripComment u)
      rw [heq]
      exact htrim.symm
  · rfl

/-- White space around a text, and a comment after it. -/
theorem clean_around {t x y comment : Text} (hx : Text.IsBlank x) (hy : Text.IsBlank y) (hends : Scan.run {} t = {})
    (havoids : Scan.Avoids Scan.commentAt {} t) (h : Text.IsComment comment) :
    clean (x ++ (t ++ (y ++ comment))) = Text.trim t := by
  have hplain : ∀ {r : Text}, Text.IsBlank r → Scan.run {} r = {} ∧ Scan.Avoids Scan.commentAt {} r := by
    intro r hr
    exact ⟨Scan.run_plain (Text.plain_of_quiet hr.quiet) 0, Scan.avoids_comment (Text.not_mem_of_quiet hr.quiet rfl) _⟩
  have hline : x ++ (t ++ (y ++ comment)) = (x ++ (t ++ y)) ++ comment := by simp
  rw [clean, hline, Text.stripComment_comment _ _ h, Text.trim_blank hx hy]
  · rw [Scan.run_append, Scan.run_append, (hplain hx).1, hends, (hplain hy).1]
  · rw [Scan.avoids_append, Scan.avoids_append, (hplain hx).1, hends]
    exact ⟨(hplain hx).2, havoids, (hplain hy).2⟩

/-! ## Labels -/

/-- The definition of a label: a colon in front of its name or after it. -/
inductive IsLabel : Text → Text → Prop
  | front (name : Text) : IsLabel name (58 :: name)
  | back (name : Text) : IsLabel name (name ++ [58])

theorem IsLabel.unbroken {name label : Text} (h : IsLabel name label) (hname : Text.isName name = true) :
    label ≠ [] ∧ Text.Unbroken label := by
  have hsolid := (Text.isName_word hname).solid
  cases h with
  | front => exact ⟨by simp, Text.unbroken_of_solid (List.forall_mem_cons.2 ⟨rfl, hsolid⟩)⟩
  | back => exact ⟨by simp, Text.unbroken_of_solid (List.forall_mem_append.2 ⟨hsolid, List.forall_mem_singleton.2 rfl⟩)⟩

theorem cutLabel?_label {name label gap rest : Text} (h : IsLabel name label) (hname : Text.isName name = true)
    (hgap : Text.IsBlank gap) (hends : gap ≠ [] ∨ rest = []) :
    cutLabel? (label ++ (gap ++ rest)) = some (name, Text.trimLeft rest) := by
  rw [cutLabel?, (h.unbroken hname).2.cutBlank_word hgap hends]
  simp only [Text.trimLeft_blank hgap]
  cases h with
  | front => rfl
  | back =>
    -- a name starts with no colon, so the one at the end counts
    have hhead : (name ++ [58]).head? ≠ some (Text.byte ':') := by
      intro he
      obtain ⟨b, t, rfl⟩ := List.exists_cons_of_ne_nil (Text.isName_word hname).ne_nil
      cases he
      cases hname
    rw [if_neg hhead, if_pos (by rw [List.getLast?_concat]; rfl), List.dropLast_concat]

theorem cutLabel?_shorter {line name rest : Text} (h : cutLabel? line = some (name, rest)) : rest.length < line.length := by
  have happend := congrArg List.length (Text.cutBlank_append line)
  rw [List.length_append] at happend
  have htrim : (Text.trimLeft (Text.cutBlank line).2).length ≤ (Text.cutBlank line).2.length :=
    (Text.dropForms_suffix Text.blankForms _ 0).length_le
  have hpos : (Text.cutBlank line).1 ≠ [] → 0 < (Text.cutBlank line).1.length := List.length_pos_iff.2
  rw [cutLabel?] at h
  dsimp only at h
  split at h
  · rename_i hhead
    cases h
    have := hpos fun he => by rw [he] at hhead; cases hhead
    omega
  · split at h
    · rename_i hlast
      cases h
      have := hpos fun he => by rw [he] at hlast; cases hlast
      omega
    · cases h

/-- Any fuel from the length of the line on is enough. -/
theorem cutLabels_fuel (labels : List Text) (fuel fuel' : Nat) (line : Text) (h : line.length ≤ fuel)
    (h' : line.length ≤ fuel') : cutLabels labels fuel line = cutLabels labels fuel' line := by
  have hnil : ∀ (labels : List Text) (n : Nat), cutLabels labels n [] = .ok (labels.reverse, []) := by
    intro labels n
    cases n <;> rfl
  induction fuel generalizing labels fuel' line with
  | zero =>
    rw [List.length_eq_zero_iff.1 (Nat.le_zero.1 h), hnil, hnil]
  | succ fuel ih =>
    cases fuel' with
    | zero => rw [List.length_eq_zero_iff.1 (Nat.le_zero.1 h'), hnil, hnil]
    | succ fuel' =>
      rw [cutLabels, cutLabels]
      cases hcut : cutLabel? line with
      | none => rfl
      | some cut =>
        have hshorter := cutLabel?_shorter hcut
        simp only [ih (cut.1 :: labels) fuel' cut.2 (by omega) (by omega)]

/-- Labels so far are in front of those that are split off. -/
theorem cutLabels_onto (labels : List Text) (fuel : Nat) (line : Text) :
    cutLabels labels fuel line = (cutLabels [] fuel line).map fun cut => (labels.reverse ++ cut.1, cut.2) := by
  induction fuel generalizing labels line with
  | zero => simp [cutLabels, Except.map]
  | succ fuel ih =>
    rw [cutLabels, cutLabels]
    cases cutLabel? line with
    | none => simp [Except.map]
    | some cut =>
      simp only
      split
      · rw [ih (cut.1 :: labels), ih [cut.1]]
        cases cutLabels [] fuel cut.2 with
        | error err => rfl
        | ok found => simp [Except.map]
      · rfl

/-- A line that starts with no label is left as it is. -/
theorem cutLabels_stop {line : Text} (h : cutLabel? line = none) (fuel : Nat) : cutLabels [] fuel line = .ok ([], line) := by
  cases fuel with
  | zero => rfl
  | succ fuel => rw [cutLabels, h]; rfl

/-- One round: the first label, if it has a name, and then the labels of the rest. -/
theorem cutLabels_cut {line name rest : Text} (h : cutLabel? line = some (name, rest)) :
    cutLabels [] line.length line =
      if Text.isName name then (cutLabels [] rest.length rest).map fun cut => (name :: cut.1, cut.2)
      else .error .labelInvalid := by
  have hshorter := cutLabel?_shorter h
  obtain ⟨fuel, hfuel⟩ := Nat.exists_eq_add_of_lt (Nat.lt_of_le_of_lt (Nat.zero_le _) hshorter)
  rw [hfuel, Nat.zero_add, cutLabels, h]
  simp only
  rw [cutLabels_onto, cutLabels_fuel [] fuel _ _ (by omega) (Nat.le_refl _)]
  rfl

/-! ## Mnemonics -/

/-- A word that defines no label. -/
structure IsMnemonic (word : Text) : Prop where
  ne_nil : word ≠ []
  unbroken : Text.Unbroken word
  head : word.head? ≠ some 58
  last : word.getLast? ≠ some 58

theorem IsMnemonic.of_letters {t u : Text} (letters : t.SameLetters u) (hu : Text.isName u = true) : IsMnemonic t := by
  have hword := letters.word (Text.isName_word hu)
  -- a colon is no letter, so it would be in the name
  have hcolon : (58 : UInt8) ∉ t := by
    have hbyte : ∀ b, Text.upperByte b = 58 → Text.isNameByte b = false :=
      Text.forall_byte (p := fun b => Text.upperByte b = 58 → Text.isNameByte b = false) (by decide +kernel)
    intro hmem
    have hmap : (58 : UInt8) ∈ u.map Text.upperByte := letters ▸ List.mem_map_of_mem (f := Text.upperByte) hmem
    obtain ⟨b, hb, heq⟩ := List.mem_map.1 hmap
    exact absurd (Text.isName_bytes hu b hb) (by simp [hbyte b heq])
  exact ⟨hword.ne_nil, Text.unbroken_of_solid hword.solid, fun he => hcolon (List.mem_of_head? he),
    fun he => hcolon (List.mem_of_getLast? he)⟩

/-! ## Lines by their first word -/

variable [Evaluator] (e : Equates)

/-- A label in front of a line, or alone. -/
theorem parse_labelled {name label gap rest : Text} (h : IsLabel name label) (hname : Text.isName name = true)
    (hgap : Text.IsBlank gap) (hends : gap ≠ [] ∨ rest = []) :
    parse e (label ++ (gap ++ rest)) =
      (parse e (Text.trimLeft rest)).map fun read => (.label name :: read.1, read.2) := by
  rw [parse, parse, cutLabels_cut (cutLabel?_label h hname hgap hends), if_pos hname]
  cases cutLabels [] (Text.trimLeft rest).length (Text.trimLeft rest) with
  | error err => rfl
  | ok cut =>
    simp only [Except.map]
    cases statement e cut.2 <;> rfl

theorem parse_mnemonic {word gap : Text} (h : IsMnemonic word) (hgap : Text.IsBlank gap) (hne : gap ≠ []) (rest : Text) :
    parse e (word ++ (gap ++ rest)) =
      if Text.upper word = Text.ofString ".EQU" then (e.define (Text.trim rest)).map ([], ·)
      else if Text.upper word = Text.ofString "DAT" ∨ Text.upper word = Text.ofString ".DAT" then
        (e.data (Text.trim rest)).map fun i => ([i], e)
      else (e.instruction (Text.upper word) (Text.trim rest)).map fun i => ([i], e) := by
  have hcut := h.unbroken.cutBlank_gap hgap hne rest
  have hlabel : cutLabel? (word ++ (gap ++ rest)) = none := by
    have hhead : word.head? ≠ some (Text.byte ':') := h.head
    have hlast : word.getLast? ≠ some (Text.byte ':') := h.last
    rw [cutLabel?, hcut]
    simp only
    rw [if_neg hhead, if_neg hlast]
  have hempty : (word ++ (gap ++ rest)).isEmpty = false := by simp [h.ne_nil]
  have htrim : Text.trim (gap ++ rest) = Text.trim rest := Text.trim_blank_left hgap rest
  unfold parse statement
  simp only [cutLabels_stop hlabel, hempty, hcut, htrim, Bool.false_eq_true, if_false]
  split_ifs
  · cases e.define (Text.trim rest) <;> rfl
  · cases e.data (Text.trim rest) <;> rfl
  · cases e.instruction (Text.upper word) (Text.trim rest) <;> rfl

/-! ## Definitions of equates -/

theorem define_eq {name gap text : Text} (hname : Text.isName name = true) (hgap : Text.IsBlank gap) (hne : gap ≠ [])
    (htrim : Text.trim text = text) (htext : text ≠ []) :
    e.define (name ++ (gap ++ text)) =
      if (e.get? name).isSome then .error .equateDuplicate
      else if text = name then .error .equateLoop
      else .ok (e.insert name (e.settle text)) := by
  have hcut := (Text.unbroken_of_solid (Text.isName_word hname).solid).cutBlank_gap hgap hne text
  have hrest : (gap ++ text).isEmpty = false := by simp [hne]
  have hempty : text.isEmpty = false := List.isEmpty_eq_false_iff.2 htext
  unfold Equates.define
  simp only [hcut, Text.trim_blank_left hgap, htrim]
  rw [if_neg (by simp [hrest, hempty, hname])]

/-- A definition, in any letter case. -/
theorem parse_definition {word gap name gap' text : Text} (letters : word.SameLetters (Text.ofString ".equ"))
    (hgap : Text.IsBlank gap) (hne : gap ≠ []) (hname : Text.isName name = true) (hgap' : Text.IsBlank gap')
    (hne' : gap' ≠ []) (htrim : Text.trim text = text) (htext : text ≠ [])
    (hend : Text.trim (name ++ (gap' ++ text)) = name ++ (gap' ++ text)) :
    parse e (word ++ (gap ++ (name ++ (gap' ++ text)))) =
      if (e.get? name).isSome then .error .equateDuplicate
      else if text = name then .error .equateLoop
      else .ok ([], e.insert name (e.settle text)) := by
  have hequ : Text.isName (Text.ofString ".equ") = true := rfl
  have hupper : Text.upper word = Text.ofString ".EQU" := letters.upper_eq (Text.isName_word hequ)
  rw [parse_mnemonic e (.of_letters letters hequ) hgap hne, if_pos hupper, hend, define_eq e hname hgap' hne' htrim htext]
  split_ifs <;> rfl

/-! ## Operations -/

/-- The mnemonics of directives, in upper case. -/
def directives : List Text := [Text.ofString ".EQU", Text.ofString "DAT", Text.ofString ".DAT"]

/-- A line that starts with the name of an operation is an instruction. -/
theorem parse_operation {word gap : Text} (h : IsMnemonic word) (hnot : Text.upper word ∉ directives)
    (hgap : Text.IsBlank gap) (hne : gap ≠ []) (rest : Text) :
    parse e (word ++ (gap ++ rest)) =
      (e.instruction (Text.upper word) (Text.trim rest)).map fun i => ([i], e) := by
  simp only [directives, List.mem_cons, List.not_mem_nil, or_false, not_or] at hnot
  rw [parse_mnemonic e h hgap hne, if_neg hnot.1, if_neg (not_or.2 hnot.2)]

end Line

end Dcpu16
