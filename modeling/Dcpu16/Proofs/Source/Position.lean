/-
Positions of literals. A literal can be an operand, stand in brackets alone or beside a register, be a place on the stack, an
item of data or the value of a definition. In each of these positions of a line a word counts by the number that
it stands for: words that stand for the same number can be put for each other, whatever the rest of the line is.
-/
import Dcpu16.Proofs.Source.Address
import Dcpu16.Proofs.Source.Line
import Mathlib.Data.List.Forall2

namespace Dcpu16

/-! ## Words that stand for numbers -/

/-- A word that stands for a number, directly or through an equate. -/
structure Equates.Stands (e : Equates) (t : Text) (w : Word) : Prop where
  word : Text.IsWord t
  colon : t.head? ≠ some 58
  denotes : Numeral.Denotes (e.expand t) w

namespace Equates.Stands

variable {e : Equates} {t : Text} {w : Word}

/-- The name of an equate that is a number. -/
theorem of_get? {text : Text} (hname : Text.isName t = true) (hget : e.get? t = some text)
    (h : Numeral.Denotes text w) : e.Stands t w where
  word := Text.isName_word hname
  colon he := by
    obtain ⟨rest, rfl⟩ := List.head?_eq_some_iff.1 he
    cases hname
  denotes := by
    rw [expand, hget]
    exact h

/-- A number itself. -/
theorem render (h : e.Named) (w : Word) : e.Stands w.render w where
  word := w.render_word
  colon he := by
    rw [Word.render_head] at he
    cases he
  denotes := by
    rw [h.expand_eq (Numeral.render_denotes w).not_name]
    exact Numeral.render_denotes w

theorem datum_eq [Evaluator] (h : e.Stands t w) : e.datum t = .ok (.word w) := by
  have hliteral : e.literal t = .ok (.number w) := literal_denotes (by rw [h.word.trim_eq]; exact h.denotes)
  rw [datum, hliteral]
  · rintro rest rfl
    exact h.word.not_mem rfl List.mem_cons_self
  · rintro rest rfl
    exact h.colon rfl

end Equates.Stands

/-! ## Operands -/

/-- The positions of a literal in an operand, as functions of its text, with the operand that its number gives. -/
inductive Operand.Position (e : Equates) : (Word → Operand) → (Text → Text) → Prop
  | whole : Position e (fun w => .immediate (.number w)) fun t => t
  | memory {x y : Text} (hx : x.IsBlank) (hy : y.IsBlank) :
      Position e (fun w => .memory (.number w)) fun t => 91 :: ((x ++ (t ++ y)) ++ [93])
  | afterPlus {r : Register} {s x y z v : Text} (hr : e.register? s = some r) (hx : x.IsBlank) (hy : y.IsBlank)
      (hz : z.IsBlank) (hv : v.IsBlank) :
      Position e (fun w => .offset r (.number w)) fun t => 91 :: (((x ++ (s ++ y)) ++ 43 :: (z ++ (t ++ v))) ++ [93])
  | beforePlus {r : Register} {s x y z v : Text} (hr : e.register? s = some r) (hx : x.IsBlank) (hy : y.IsBlank)
      (hz : z.IsBlank) (hv : v.IsBlank) :
      Position e (fun w => .offset r (.number w)) fun t => 91 :: (((x ++ (t ++ y)) ++ 43 :: (z ++ (s ++ v))) ++ [93])
  | afterMinus {r : Register} {s x y z v : Text} (hr : e.register? s = some r) (hx : x.IsBlank) (hy : y.IsBlank)
      (hz : z.IsBlank) (hv : v.IsBlank) :
      Position e (fun w => .offset r (.number (-w))) fun t => 91 :: (((x ++ (s ++ y)) ++ 45 :: (z ++ (t ++ v))) ++ [93])
  | stack {word gap : Text} (hword : Text.upper word = Text.ofString "PICK") (hgap : gap.IsBlank) (hne : gap ≠ []) :
      Position e (fun w => .offset .sp (.number w)) fun t => word ++ (gap ++ t)

namespace Operand.Position

variable {e : Equates} {o : Word → Operand} {place : Text → Text} {t : Text} {w : Word}

/-- In every position the number decides. -/
theorem operand_eq [Evaluator] (hp : Position e o place) (h : e.Named) (ht : e.Stands t w) :
    e.operand (place t) = .ok (o w) := by
  have htoken := ht.word.token
  have hliteral : e.literal t = .ok (.number w) := Equates.literal_denotes (by rw [ht.word.trim_eq]; exact ht.denotes)
  have hnone : e.register? t = none := Equates.register_denotes ht.denotes
  cases hp with
  | whole => exact Equates.operand_denotes (by rw [ht.word.trim_eq]; exact ht.denotes)
  | memory hx hy =>
    rw [Equates.operand_around h htoken hx hy, Equates.indirection_literal htoken hx hy hnone, hliteral]
    rfl
  | @afterPlus r s x y z v hr hx hy hz hv =>
    have hs := h.register_token hr
    have hparts := Equates.addressParts_plus (e := e) hs htoken hx hy hz hv
    have hother : e.registerAndOther? s t = some (r, t) := by rw [Equates.registerAndOther?, hr]
    rw [Equates.operand_signed h hs htoken hx hy hz hv, Equates.indirection_plus hparts hother, hliteral]
    rfl
  | @beforePlus r s x y z v hr hx hy hz hv =>
    have hs := h.register_token hr
    have hparts := Equates.addressParts_plus (e := e) htoken hs hx hy hz hv
    have hother : e.registerAndOther? t s = some (r, t) := by rw [Equates.registerAndOther?, hnone, hr]; rfl
    rw [Equates.operand_signed h htoken hs hx hy hz hv, Equates.indirection_plus hparts hother, hliteral]
    rfl
  | afterMinus hr hx hy hz hv =>
    have hs := h.register_token hr
    have hparts := Equates.addressParts_minus hs htoken hx hy hz hv (by rw [hr]; rfl)
    rw [Equates.operand_signed h hs htoken hx hy hz hv, Equates.indirection_minus hparts hr hliteral]
  | stack hword hgap hne =>
    rw [Equates.operand_pick h hword hgap hne ht.word.last_solid, hliteral]
    rfl

/-- An operand stays whole in a list. -/
theorem part (hp : Position e o place) (h : e.Named) (ht : Text.IsWord t) : Text.Part 44 (place t) := by
  have htoken := ht.token
  have hbytes : ∀ {u : Text}, (∀ b ∈ u, Text.isQuiet b = true) → ∀ b ∈ u, Scan.isPlain b = true ∧ b ≠ 44 := by
    intro u hu b hb
    refine ⟨Text.plain_of_quiet hu b hb, ?_⟩
    rintro rfl
    exact Text.not_mem_of_quiet hu rfl hb
  have hsigned : ∀ {u v : Text} {sign : UInt8}, Scan.isPlain sign = true ∧ sign ≠ 44 → (∀ b ∈ u, Text.isQuiet b = true) →
      (∀ b ∈ v, Text.isQuiet b = true) → Text.Part 44 (91 :: ((u ++ sign :: v) ++ [93])) := by
    intro u v sign hsign hu hv
    exact Text.part_brackets (List.forall_mem_append.2 ⟨hbytes hu, List.forall_mem_cons.2 ⟨hsign, hbytes hv⟩⟩)
  cases hp with
  | whole => exact ht.piece.part
  | memory hx hy => exact Text.part_brackets (hbytes (htoken.quiet_around hx hy))
  | afterPlus hr hx hy hz hv =>
    exact hsigned (by decide) ((h.register_token hr).quiet_around hx hy) (htoken.quiet_around hz hv)
  | beforePlus hr hx hy hz hv =>
    exact hsigned (by decide) (htoken.quiet_around hx hy) ((h.register_token hr).quiet_around hz hv)
  | afterMinus hr hx hy hz hv =>
    exact hsigned (by decide) ((h.register_token hr).quiet_around hx hy) (htoken.quiet_around hz hv)
  | @stack word gap hword hgap hne =>
    have hwtoken := Text.token_of_keyword rfl hword
    exact Text.part_of_quiet rfl (Text.quiet_append hwtoken.quiet (Text.quiet_append hgap.quiet htoken.quiet))

end Operand.Position

/-! ## Lists -/

namespace Text

/-- The end of a list, or a comma and more. -/
def IsRest (t : Text) : Prop := t = [] ∨ ∃ more, t = 44 :: more

/-- Parts with a comma after each, a part with white space around it, and the rest of the list. -/
def within (befores : List Text) (x y rest t : Text) : Text :=
  befores.flatMap (fun u => u ++ [44]) ++ ((x ++ (t ++ y)) ++ rest)

/-- The parts around one part do not depend on it. -/
theorem splitTop_within {befores : List Text} {x y rest : Text} (hbefores : ∀ u ∈ befores, Part 44 u) (hx : x.IsBlank)
    (hy : y.IsBlank) (hrest : IsRest rest) :
    ∃ parts, ∀ t, Part 44 t → splitTop 44 (within befores x y rest t) = befores.map trim ++ trim t :: parts := by
  have hlast : ∃ parts, ∀ t, Part 44 t → splitTop 44 ((x ++ (t ++ y)) ++ rest) = trim t :: parts := by
    rcases hrest with rfl | ⟨more, rfl⟩
    · refine ⟨[], fun t ht => ?_⟩
      rw [List.append_nil, splitTop_part (ht.around rfl hx hy), trim_blank hx hy]
    · refine ⟨splitTop 44 more, fun t ht => ?_⟩
      rw [splitTop_cons rfl (ht.around rfl hx hy), trim_blank hx hy]
  obtain ⟨parts, hparts⟩ := hlast
  refine ⟨parts, fun t ht => ?_⟩
  unfold within
  induction befores with
  | nil => exact hparts t ht
  | cons u us ih =>
    have hu := splitTop_cons rfl (hbefores u List.mem_cons_self)
      (us.flatMap (fun u => u ++ [44]) ++ ((x ++ (t ++ y)) ++ rest))
    rw [List.flatMap_cons, List.append_assoc, List.append_assoc, List.singleton_append, hu,
      ih fun v hv => hbefores v (List.mem_cons_of_mem _ hv)]
    rfl

/-- Two lists that differ in one part. -/
theorem forall₂_within {R : Text → Text → Prop} (hrefl : ∀ t, R t t) {t u : Text} (h : R t u) (parts : List Text) :
    ∀ befores : List Text, List.Forall₂ R (befores ++ t :: parts) (befores ++ u :: parts)
  | [] => .cons h (List.forall₂_same.2 fun v _ => hrefl v)
  | v :: vs => .cons (hrefl v) (forall₂_within hrefl h parts vs)

end Text

namespace Equates

variable {e : Equates} {operands operands' : Text}

theorem arguments_trim {parts : List Text} (h : Text.splitTop 44 operands = parts) (hne : parts ≠ [[]]) :
    arguments (Text.trim operands) = parts := by
  have hsplit : Text.splitTop 44 (Text.trim operands) = parts := (Text.splitTop_trim rfl operands).trans h
  rw [arguments]
  split
  · rename_i hempty
    rw [List.isEmpty_iff.1 hempty] at hsplit
    exact absurd hsplit.symm hne
  · exact hsplit

variable [Evaluator]

/-- An instruction depends on the operands that its arguments are. -/
theorem instruction_arguments
    (h : List.Forall₂ (fun a b => e.operand a = e.operand b) (arguments operands) (arguments operands'))
    (mnemonic : Text) : e.instruction mnemonic operands = e.instruction mnemonic operands' := by
  have hvalue : ∀ {a b}, e.operand a = e.operand b → e.valueOperand a = e.valueOperand b := by
    intro a b hab
    rw [valueOperand, valueOperand, hab]
  have hdestination : ∀ {a b}, e.operand a = e.operand b → e.destinationOperand a = e.destinationOperand b := by
    intro a b hab
    rw [destinationOperand, destinationOperand, hab]
  unfold instruction
  generalize arguments operands = xs at h
  generalize arguments operands' = ys at h
  have hbasic : ∀ op, e.basic op xs = e.basic op ys := by
    intro op
    rcases h with _ | ⟨h1, _ | ⟨h2, _ | ⟨h3, _⟩⟩⟩
    · rfl
    · rfl
    · rw [basic, basic, hdestination h1, hvalue h2]
    · rfl
  have hspecial : ∀ op, e.special op xs = e.special op ys := by
    intro op
    rcases h with _ | ⟨h1, _ | ⟨h2, _⟩⟩
    · rfl
    · rw [special, special, hvalue h1]
    · rfl
  simp only [hbasic, hspecial]

theorem dataOnto_items {xs ys : List Text} (h : List.Forall₂ (fun a b => e.datum a = e.datum b) xs ys) (acc : List Datum) :
    e.dataOnto acc xs = e.dataOnto acc ys := by
  induction h generalizing acc with
  | nil => rfl
  | @cons a b xs ys hab _ ih =>
    rw [dataOnto, dataOnto, hab]
    cases e.datum b with
    | ok d => exact ih (d :: acc)
    | error err => rfl

theorem data_trim {parts : List Text} (h : Text.splitTop 44 operands = parts) (hne : parts ≠ [[]]) :
    e.data (Text.trim operands) = (e.dataOnto [] parts).map .data := by
  have hsplit : Text.splitTop (Text.byte ',') (Text.trim operands) = parts := (Text.splitTop_trim rfl operands).trans h
  rw [data, Text.trim_trim, hsplit, if_neg]
  intro hempty
  rw [List.isEmpty_iff.1 hempty] at hsplit
  exact hne hsplit.symm

end Equates

/-! ## Lines -/

namespace Line

/-- The positions of a literal in a line, as functions of its text: in an operand of an instruction, as an item of data and
as the value of a definition, with any labels in front. -/
inductive Position (e : Equates) : (Text → Text) → Prop
  | operand {word gap x y rest : Text} {befores : List Text} {o : Word → Operand} {place : Text → Text}
      (hword : IsMnemonic word) (hnot : Text.upper word ∉ directives) (hgap : gap.IsBlank) (hne : gap ≠ [])
      (hbefores : ∀ u ∈ befores, Text.Part 44 u) (hx : x.IsBlank) (hplace : Operand.Position e o place) (hy : y.IsBlank)
      (hrest : Text.IsRest rest) : Position e fun t => word ++ (gap ++ Text.within befores x y rest (place t))
  | datum {word gap x y rest : Text} {befores : List Text} (hword : IsMnemonic word)
      (hdata : Text.upper word = Text.ofString "DAT" ∨ Text.upper word = Text.ofString ".DAT") (hgap : gap.IsBlank)
      (hne : gap ≠ []) (hbefores : ∀ u ∈ befores, Text.Part 44 u) (hx : x.IsBlank) (hy : y.IsBlank)
      (hrest : Text.IsRest rest) : Position e fun t => word ++ (gap ++ Text.within befores x y rest t)
  | value {word gap name gap' : Text} (letters : word.SameLetters (Text.ofString ".equ")) (hgap : gap.IsBlank)
      (hne : gap ≠ []) (hname : Text.isName name = true) (hgap' : gap'.IsBlank) (hne' : gap' ≠ []) :
      Position e fun t => word ++ (gap ++ (name ++ (gap' ++ t)))
  | labelled {name label gap : Text} {line : Text → Text} (hlabel : IsLabel name label) (hname : Text.isName name = true)
      (hgap : gap.IsBlank) (hne : gap ≠ []) (more : Position e line) : Position e fun t => label ++ (gap ++ line t)

namespace Position

variable {e : Equates} {line : Text → Text} {t u : Text} {w : Word}

/-- A line starts with a word. -/
theorem trimLeft_eq (hp : Position e line) (t : Text) : Text.trimLeft (line t) = line t := by
  cases hp with
  | operand hword _ hgap hne => exact hword.unbroken.trimLeft_append hword.ne_nil (hgap.head_append hne _)
  | datum hword _ hgap hne => exact hword.unbroken.trimLeft_append hword.ne_nil (hgap.head_append hne _)
  | value letters hgap hne =>
    have hword := IsMnemonic.of_letters letters rfl
    exact hword.unbroken.trimLeft_append hword.ne_nil (hgap.head_append hne _)
  | labelled hlabel hname hgap hne =>
    have hword := hlabel.unbroken hname
    exact hword.2.trimLeft_append hword.1 (hgap.head_append hne _)

variable [Evaluator]

/-- A position in an operand: the arguments are the same but for one, which is the same operand. -/
theorem instruction_eq {x y rest : Text} {befores : List Text} {o : Word → Operand} {place : Text → Text} (h : e.Named)
    (hbefores : ∀ u ∈ befores, Text.Part 44 u) (hx : x.IsBlank) (hplace : Operand.Position e o place) (hy : y.IsBlank)
    (hrest : Text.IsRest rest) (ht : e.Stands t w) (hu : e.Stands u w) (mnemonic : Text) :
    e.instruction mnemonic (Text.trim (Text.within befores x y rest (place t))) =
      e.instruction mnemonic (Text.trim (Text.within befores x y rest (place u))) := by
  obtain ⟨parts, hparts⟩ := Text.splitTop_within hbefores hx hy hrest
  have htrim : ∀ s : Text, e.operand (Text.trim s) = e.operand s := by
    intro s
    rw [Equates.operand, Equates.operand, Text.trim_trim]
  -- an operand that is read is not empty, so the list is not that of no operands
  have hargs : ∀ {s : Text}, e.Stands s w →
      Equates.arguments (Text.trim (Text.within befores x y rest (place s))) =
        befores.map Text.trim ++ Text.trim (place s) :: parts := by
    intro s hs
    refine Equates.arguments_trim (hparts _ (hplace.part h hs.word)) fun he => ?_
    have hmem : Text.trim (place s) ∈ ([[]] : List Text) := he ▸ by simp
    have hread := hplace.operand_eq h hs
    have hnil : e.expand [] = [] := h.expand_eq rfl
    rw [← htrim, List.mem_singleton.1 hmem, Equates.operand] at hread
    have hempty : Text.trim [] = [] := rfl
    simp [hempty, hnil] at hread
  refine Equates.instruction_arguments ?_ mnemonic
  rw [hargs ht, hargs hu]
  refine Text.forall₂_within (R := fun a b => e.operand a = e.operand b) (fun _ => rfl) ?_ parts _
  rw [htrim, htrim, hplace.operand_eq h ht, hplace.operand_eq h hu]

/-- A position in data: the items are the same but for one, which is the same word. -/
theorem data_eq {x y rest : Text} {befores : List Text} (hbefores : ∀ u ∈ befores, Text.Part 44 u) (hx : x.IsBlank)
    (hy : y.IsBlank) (hrest : Text.IsRest rest) (ht : e.Stands t w) (hu : e.Stands u w) :
    e.data (Text.trim (Text.within befores x y rest t)) = e.data (Text.trim (Text.within befores x y rest u)) := by
  obtain ⟨parts, hparts⟩ := Text.splitTop_within hbefores hx hy hrest
  have hitems : ∀ {s : Text}, e.Stands s w →
      e.data (Text.trim (Text.within befores x y rest s)) =
        (e.dataOnto [] (befores.map Text.trim ++ s :: parts)).map .data := by
    intro s hs
    have hsplit := hparts s hs.word.piece.part
    rw [hs.word.trim_eq] at hsplit
    refine Equates.data_trim hsplit fun he => ?_
    have hmem : s ∈ ([[]] : List Text) := he ▸ by simp
    exact hs.word.ne_nil (List.mem_singleton.1 hmem)
  rw [hitems ht, hitems hu]
  refine congrArg _ (Equates.dataOnto_items ?_ [])
  refine Text.forall₂_within (R := fun a b => e.datum a = e.datum b) (fun _ => rfl) ?_ parts _
  rw [ht.datum_eq, hu.datum_eq]

/-- The value of a definition: what is kept is the number, and the name that is defined is not that of the number. -/
theorem parse_value {word gap name gap' : Text} (letters : word.SameLetters (Text.ofString ".equ")) (hgap : gap.IsBlank)
    (hne : gap ≠ []) (hname : Text.isName name = true) (hgap' : gap'.IsBlank) (hne' : gap' ≠ []) (ht : e.Stands t w) :
    parse e (word ++ (gap ++ (name ++ (gap' ++ t)))) =
      if (e.get? name).isSome then .error .equateDuplicate
      else .ok ([], e.insert name (Text.ofString "0x" ++ Numeral.digits 16 w.toNat)) := by
  have hend : Text.trim (name ++ (gap' ++ t)) = name ++ (gap' ++ t) := by
    have hnword := Text.isName_word hname
    refine (Text.unbroken_of_solid hnword.solid).trim_append hnword.ne_nil (hgap'.head_append hne' t) fun b hb => ?_
    rw [List.getLast?_append_of_ne_nil _ (by simp [hne']), List.getLast?_append_of_ne_nil _ ht.word.ne_nil] at hb
    exact ht.word.solid b (List.mem_of_getLast? hb)
  rw [parse_definition e letters hgap hne hname hgap' hne' ht.word.trim_eq ht.word.ne_nil hend,
    Equates.settle_denotes ht.denotes]
  split
  · rfl
  · rename_i hdefined
    refine if_neg ?_
    rintro rfl
    -- a name that is not defined stands for itself, and no name is a number
    have hself : e.expand t = t := by
      rw [Equates.expand, Option.not_isSome_iff_eq_none.1 hdefined]
      rfl
    have hnot := ht.denotes.not_name
    rw [hself, hname] at hnot
    cases hnot

/-- Words that stand for the same number can be put for each other in every position of a line. -/
theorem parse_eq (hp : Position e line) (h : e.Named) (ht : e.Stands t w) (hu : e.Stands u w) :
    parse e (line t) = parse e (line u) := by
  induction hp with
  | operand hword hnot hgap hne hbefores hx hplace hy hrest =>
    rw [parse_operation e hword hnot hgap hne, parse_operation e hword hnot hgap hne,
      instruction_eq h hbefores hx hplace hy hrest ht hu]
  | @datum word gap x y rest befores hword hdata hgap hne hbefores hx hy hrest =>
    have hequ : Text.upper word ≠ Text.ofString ".EQU" := by
      rcases hdata with hd | hd <;>
        · rw [hd]
          decide
    rw [parse_mnemonic e hword hgap hne, parse_mnemonic e hword hgap hne, if_neg hequ, if_pos hdata, if_neg hequ,
      if_pos hdata, data_eq hbefores hx hy hrest ht hu]
  | value letters hgap hne hname hgap' hne' =>
    rw [parse_value letters hgap hne hname hgap' hne' ht, parse_value letters hgap hne hname hgap' hne' hu]
  | labelled hlabel hname hgap hne more ih =>
    rw [parse_labelled e hlabel hname hgap (.inl hne), parse_labelled e hlabel hname hgap (.inl hne), more.trimLeft_eq,
      more.trimLeft_eq, ih]

end Position

end Line

end Dcpu16
