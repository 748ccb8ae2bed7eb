/-
Instructions as they may be written. Letters of mnemonics, registers, numbers and the two words for the stack can be in
either case, and white space can stand at the ends of brackets and around plus signs and commas; a mnemonic is followed by
at least one white space character. The rendered text is one of these spellings. Each of them is a line that is kept
as it is, and each operand or item in it a piece that stays whole.
-/
import Dcpu16.Proofs.Instruction.Names
import Dcpu16.Proofs.Text.Token
import Mathlib.Data.List.Forall2

namespace Dcpu16

/-! ## Spellings -/

/-- White space within a line. -/
structure Text.IsGap (t : Text) : Prop where
  blank : IsBlank t
  oneLine : (10 : UInt8) ∉ t

inductive Literal.Spelled : Literal → Text → Prop
  | number {w : Word} {t : Text} (letters : t.SameLetters w.render) : Spelled (.number w) t
  | label (name : Text) : Spelled (.label name) name

inductive Operand.Spelled : Operand → Text → Prop
  | register {r : Register} {t : Text} (letters : t.SameLetters r.name) : Spelled (.register r) t
  | indirect {r : Register} {t x y : Text} (hx : x.IsGap) (letters : t.SameLetters r.name) (hy : y.IsGap) :
      Spelled (.indirect r) (91 :: ((x ++ (t ++ y)) ++ [93]))
  | offset {r : Register} {l : Literal} {t u x y z v : Text} (hx : x.IsGap) (letters : t.SameLetters r.name)
      (hy : y.IsGap) (hz : z.IsGap) (literal : l.Spelled u) (hv : v.IsGap) :
      Spelled (.offset r l) (91 :: (((x ++ (t ++ y)) ++ 43 :: (z ++ (u ++ v))) ++ [93]))
  | memory {l : Literal} {t x y : Text} (hx : x.IsGap) (literal : l.Spelled t) (hy : y.IsGap) :
      Spelled (.memory l) (91 :: ((x ++ (t ++ y)) ++ [93]))
  | immediate {l : Literal} {t : Text} (literal : l.Spelled t) : Spelled (.immediate l) t
  | push {t : Text} (letters : t.SameLetters (Text.ofString "PUSH")) : Spelled .push t
  | pop {t : Text} (letters : t.SameLetters (Text.ofString "POP")) : Spelled .pop t

inductive Datum.Spelled : Datum → Text → Prop
  | label (name : Text) : Spelled (.label name) (58 :: name)
  | word {w : Word} {t : Text} (letters : t.SameLetters w.render) : Spelled (.word w) t
  | string (t : Text) : Spelled (.string t) t.literal

/-- Texts with a comma between each two, and white space around it. -/
inductive Text.Listed : List Text → Text → Prop
  | one (t : Text) : Listed [t] t
  | cons {t rest x y : Text} {ts : List Text} (hx : x.IsGap) (hy : y.IsGap) (more : Listed ts rest) :
      Listed (t :: ts) (t ++ ((x ++ 44 :: y) ++ rest))

inductive Instruction.Spelled : Instruction → Text → Prop
  | basic {op : BasicOp} {b a : Operand} {m gap s t list : Text} (letters : m.SameLetters op.name) (hgap : gap.IsGap)
      (hne : gap ≠ []) (destination : b.Spelled s) (value : a.Spelled t) (listed : Text.Listed [s, t] list) :
      Spelled (.basic op b a) (m ++ (gap ++ list))
  | special {op : SpecialOp} {a : Operand} {m gap t : Text} (letters : m.SameLetters op.name) (hgap : gap.IsGap)
      (hne : gap ≠ []) (value : a.Spelled t) : Spelled (.special op a) (m ++ (gap ++ t))
  | label (name : Text) : Spelled (.label name) (58 :: name)
  | data {items : List Datum} {m gap list : Text} {ts : List Text} (letters : m.SameLetters (Text.ofString "DAT"))
      (hgap : gap.IsGap) (hne : gap ≠ []) (spelled : List.Forall₂ Datum.Spelled items ts)
      (listed : Text.Listed ts list) : Spelled (.data items) (m ++ (gap ++ list))

/-! ## Rendered texts -/

theorem Text.IsGap.nil : IsGap [] := ⟨.nil, by simp⟩

theorem Text.IsGap.space : IsGap [32] := ⟨.of_chars [' '] (by decide), by decide⟩

theorem Literal.spelled_render (l : Literal) : l.Spelled l.render := by
  cases l with
  | number w => exact .number (.refl _)
  | label name => exact .label name

theorem Operand.spelled_render {o : Operand} (h : o.wellFormed = true) : o.Spelled o.render := by
  cases o with
  | missing => cases h
  | register r => exact .register (.refl _)
  | indirect r =>
    have hspelled := Spelled.indirect (r := r) .nil (.refl _) .nil
    rwa [List.append_nil, List.nil_append] at hspelled
  | offset r l =>
    have hspelled := Spelled.offset (r := r) .nil (.refl _) .space .space l.spelled_render .nil
    have htext : (offset r l).render = 91 :: ((([] ++ (r.name ++ [32])) ++ 43 :: ([32] ++ (l.render ++ []))) ++ [93]) := by
      show Text.ofString "[" ++ r.name ++ Text.ofString " + " ++ l.render ++ Text.ofString "]" = _
      rw [show Text.ofString "[" = [91] from rfl, show Text.ofString " + " = [32, 43, 32] from rfl,
        show Text.ofString "]" = [93] from rfl]
      simp
    rwa [htext]
  | memory l =>
    have hspelled := Spelled.memory (x := []) (y := []) .nil l.spelled_render .nil
    rwa [List.append_nil, List.nil_append] at hspelled
  | immediate l => exact .immediate l.spelled_render
  | push => exact .push (.refl _)
  | pop => exact .pop (.refl _)
  | foreign r => cases h

theorem Datum.spelled_render {d : Datum} (h : d.wellFormed = true) : d.Spelled d.render := by
  cases d with
  | missing => cases h
  | label name => exact .label name
  | word w => exact .word (.refl _)
  | string t => exact .string t
  | foreign w => cases h

theorem Text.listed_join : ∀ (t : Text) (ts : List Text), Listed (t :: ts) (join (ofString ", ") (t :: ts))
  | t, [] => by
    rw [join, List.flatMap_nil, List.append_nil]
    exact .one t
  | t, u :: us => by
    have hmore := listed_join u us
    rw [join] at hmore ⊢
    rw [List.flatMap_cons, List.append_assoc]
    exact .cons (x := []) (y := [32]) .nil .space hmore

theorem Instruction.spelled_render {i : Instruction} (h : i.wellFormed = true) : i.Spelled i.render := by
  cases i with
  | missing => cases h
  | basic op b a =>
    simp only [wellFormed, Bool.and_eq_true] at h
    obtain ⟨⟨-, -, hb⟩, -, ha⟩ := h
    have hspelled := Spelled.basic (.refl op.name) .space (by simp) (Operand.spelled_render hb) (Operand.spelled_render ha)
      (Text.listed_join _ _)
    have hline : (Instruction.basic op b a).render =
        op.name ++ ([32] ++ Text.join (Text.ofString ", ") [b.render, a.render]) := by
      show op.name ++ [32] ++ b.render ++ Text.ofString ", " ++ a.render = _
      simp [Text.join]
    rwa [hline]
  | special op a =>
    simp only [wellFormed, Bool.and_eq_true] at h
    obtain ⟨-, -, ha⟩ := h
    have hspelled := Spelled.special (.refl op.name) .space (by simp) (Operand.spelled_render ha)
    have hline : (Instruction.special op a).render = op.name ++ ([32] ++ a.render) := by
      show op.name ++ [32] ++ a.render = _
      simp
    rwa [hline]
  | label name => exact .label name
  | data items =>
    simp only [wellFormed, Bool.and_eq_true, List.all_eq_true] at h
    obtain ⟨hne, hitems⟩ := h
    obtain ⟨d, ds, rfl⟩ := List.exists_cons_of_ne_nil (l := items) (by rintro rfl; cases hne)
    have hall : List.Forall₂ Datum.Spelled (d :: ds) ((d :: ds).map Datum.render) :=
      List.forall₂_map_right_iff.2 (List.forall₂_same.2 fun x hx => Datum.spelled_render (hitems x hx))
    have hspelled := Spelled.data (.refl (Text.ofString "DAT")) .space (by simp) hall (Text.listed_join _ _)
    exact hspelled
  | foreign name => cases h

/-! ## Pieces -/

theorem Literal.Spelled.word {l : Literal} {t : Text} (h : l.wellFormed = true) (hs : l.Spelled t) : Text.IsWord t := by
  cases hs with
  | number letters => exact letters.word (Word.render_word _)
  | label name =>
    rw [Literal.wellFormed, Bool.and_eq_true] at h
    exact Text.isName_word h.1

namespace Text

/-- The definition of a label is a word. -/
theorem colon_word {name : Text} (h : isName name = true) : IsWord (58 :: name) where
  ne_nil := by simp
  bytes b hb := by
    rcases List.mem_cons.1 hb with rfl | hb
    · rfl
    · exact (isName_word h).bytes b hb

/-- Brackets around bytes that are no brackets, quote marks, commas or semicolons stay whole. -/
theorem Piece.bracketed {inner : Text} (h : ∀ b ∈ inner, isQuiet b = true ∨ b = 43) (hone : (10 : UInt8) ∉ inner) :
    Piece (91 :: (inner ++ [93])) := by
  have hbytes : ∀ b ∈ inner, Scan.isPlain b = true ∧ b ≠ 59 ∧ b ≠ 44 := by
    have hall : ∀ b, isQuiet b = true ∨ b = 43 → Scan.isPlain b = true ∧ b ≠ 59 ∧ b ≠ 44 :=
      forall_byte (p := fun b => isQuiet b = true ∨ b = 43 → Scan.isPlain b = true ∧ b ≠ 59 ∧ b ≠ 44) (by decide +kernel)
    exact fun b hb => hall b (h b hb)
  refine .of_bytes ⟨91, rfl, rfl⟩ (fun b hb => ?_) (Scan.run_brackets fun b hb => (hbytes b hb).1) fun b hb => ?_
  · rw [← List.cons_append, List.getLast?_concat] at hb
    cases hb
    rfl
  · simp only [List.mem_cons, List.mem_append, List.not_mem_nil, or_false] at hb
    rcases hb with rfl | hb | rfl
    · decide
    · refine ⟨(hbytes b hb).2.1, (hbytes b hb).2.2, ?_⟩
      rintro rfl
      exact hone hb
    · decide

theorem IsWord.oneLine {t : Text} (h : IsWord t) : (10 : UInt8) ∉ t := h.not_mem rfl

theorem IsWord.around_oneLine {t x y : Text} (h : IsWord t) (hx : IsGap x) (hy : IsGap y) :
    (10 : UInt8) ∉ x ++ (t ++ y) := by
  simp only [List.mem_append, not_or]
  exact ⟨hx.oneLine, h.oneLine, hy.oneLine⟩

/-- A word in brackets with white space around it. -/
theorem Piece.around {t x y : Text} (ht : IsWord t) (hx : IsGap x) (hy : IsGap y) :
    Piece (91 :: ((x ++ (t ++ y)) ++ [93])) :=
  .bracketed (fun b hb => .inl (ht.token.quiet_around hx.blank hy.blank b hb)) (ht.around_oneLine hx hy)

theorem isWord_of_sameLetters {t u : Text} (h : t.SameLetters u) (hu : isName u = true) : IsWord t := h.word (isName_word hu)

end Text

theorem Operand.Spelled.piece {o : Operand} {s : Text} (h : o.wellFormed = true) (hs : o.Spelled s) : Text.Piece s := by
  cases hs with
  | register letters => exact (letters.word (Register.name_word h)).piece
  | indirect hx letters hy => exact .around (letters.word (Register.name_word h)) hx hy
  | offset hx letters hy hz literal hv =>
    rw [wellFormed, Bool.and_eq_true] at h
    have ht := letters.word (Register.name_word h.1)
    have hu := literal.word h.2
    refine .bracketed (fun b hb => ?_) ?_
    · rcases List.mem_append.1 hb with hb | hb
      · exact .inl (ht.token.quiet_around hx.blank hy.blank b hb)
      · rcases List.mem_cons.1 hb with rfl | hb
        · exact .inr rfl
        · exact .inl (hu.token.quiet_around hz.blank hv.blank b hb)
    · rw [List.mem_append, List.mem_cons, not_or, not_or]
      exact ⟨ht.around_oneLine hx hy, by decide, hu.around_oneLine hz hv⟩
  | memory hx literal hy => exact .around (literal.word h) hx hy
  | immediate literal =>
    rw [wellFormed, Bool.and_eq_true] at h
    exact (literal.word h.1).piece
  | push letters => exact (Text.isWord_of_sameLetters letters rfl).piece
  | pop letters => exact (Text.isWord_of_sameLetters letters rfl).piece

theorem Datum.Spelled.piece {d : Datum} {s : Text} (h : d.wellFormed = true) (hs : d.Spelled s) : Text.Piece s := by
  cases hs with
  | label name => exact (Text.colon_word h).piece
  | word letters => exact (letters.word (Word.render_word _)).piece
  | string t => exact .literal t

/-! ## Lists and lines -/

namespace Text

theorem IsGap.separates {x : Text} (hx : IsGap x) : ∀ b ∈ x, Scan.isPlain b = true ∧ b ≠ 59 ∧ b ≠ 10 := by
  intro b hb
  refine ⟨plain_of_quiet hx.blank.quiet b hb, ?_, ?_⟩
  · rintro rfl
    exact not_mem_of_quiet hx.blank.quiet rfl hb
  · rintro rfl
    exact hx.oneLine hb

namespace Listed

variable {ts : List Text} {list : Text}

theorem tidy (h : Listed ts list) (hts : ∀ t ∈ ts, Tidy t) : Tidy list := by
  induction h with
  | one t => exact hts t List.mem_cons_self
  | @cons t rest x y ts hx hy _ ih =>
    refine (hts t List.mem_cons_self).append (ih fun u hu => hts u (List.mem_cons_of_mem _ hu)) fun b hb => ?_
    rcases List.mem_append.1 hb with hb | hb
    · exact hx.separates b hb
    · rcases List.mem_cons.1 hb with rfl | hb
      · decide
      · exact hy.separates b hb

/-- A list of pieces is split into them. -/
theorem splitTop_eq (h : Listed ts list) (hts : ∀ t ∈ ts, Piece t) : splitTop (byte ',') list = ts := by
  induction h with
  | one t =>
    have ht := hts t List.mem_cons_self
    exact (splitTop_part ht.part).trans (by rw [ht.trim_eq])
  | @cons t rest x y ts hx hy _ ih =>
    have ht := hts t List.mem_cons_self
    -- the white space before the comma belongs to the first part, that after it to the others
    have hpart : Part 44 (t ++ x) := ht.part.around rfl .nil hx.blank
    have htrim : trim (t ++ x) = t := by
      have hblank := trim_blank IsBlank.nil hx.blank t
      rwa [List.nil_append, ht.trim_eq] at hblank
    have hrest : splitTop 44 (y ++ rest) = splitTop 44 rest := by
      have hblank : splitTop 44 (y ++ (rest ++ [])) = splitTop 44 rest := splitTop_blank rfl hy.blank .nil rest
      rwa [List.append_nil] at hblank
    have hline : t ++ ((x ++ 44 :: y) ++ rest) = (t ++ x) ++ 44 :: (y ++ rest) := by simp
    rw [hline]
    refine (splitTop_cons rfl hpart _).trans ?_
    rw [htrim, hrest]
    exact congrArg _ (ih fun u hu => hts u (List.mem_cons_of_mem _ hu))

end Listed

end Text

theorem Datum.pieces_of_spelled {items : List Datum} {ts : List Text} (h : List.Forall₂ Datum.Spelled items ts)
    (hwf : ∀ d ∈ items, d.wellFormed = true) : ∀ t ∈ ts, Text.Piece t := by
  induction h with
  | nil => simp
  | @cons d t items ts hd _ ih =>
    intro u hu
    rcases List.mem_cons.1 hu with rfl | hu
    · exact hd.piece (hwf d List.mem_cons_self)
    · exact ih (fun x hx => hwf x (List.mem_cons_of_mem _ hx)) u hu

/-- However an instruction is spelled, its line is kept as it is. -/
theorem Instruction.Spelled.tidy {i : Instruction} {s : Text} (h : i.wellFormed = true) (hs : i.Spelled s) :
    Text.Tidy s := by
  cases hs with
  | @basic op b a m gap s t list letters hgap _ destination value listed =>
    simp only [wellFormed, Bool.and_eq_true] at h
    obtain ⟨⟨hop, -, hb⟩, -, ha⟩ := h
    have hname := letters.word (Text.isName_word (BasicOp.isName_name op (BasicOp.mem_all hop)))
    refine hname.piece.toTidy.append (listed.tidy fun u hu => ?_) hgap.separates
    simp only [List.mem_cons, List.not_mem_nil, or_false] at hu
    rcases hu with rfl | rfl
    · exact (destination.piece hb).toTidy
    · exact (value.piece ha).toTidy
  | @special op a m gap t letters hgap _ value =>
    simp only [wellFormed, Bool.and_eq_true] at h
    obtain ⟨hop, -, ha⟩ := h
    have hname := letters.word (Text.isName_word (SpecialOp.isName_name op (SpecialOp.mem_all hop)))
    exact hname.piece.toTidy.append (value.piece ha).toTidy hgap.separates
  | label name => exact (Text.colon_word h).piece.toTidy
  | @data items m gap list ts letters hgap _ spelled listed =>
    simp only [wellFormed, Bool.and_eq_true, List.all_eq_true] at h
    have hpieces := Datum.pieces_of_spelled spelled h.2
    have hname := Text.isWord_of_sameLetters letters rfl
    exact hname.piece.toTidy.append (listed.tidy fun u hu => (hpieces u hu).toTidy) hgap.separates

end Dcpu16
