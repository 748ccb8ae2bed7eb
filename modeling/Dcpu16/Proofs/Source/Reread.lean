/-
Reading what was written. With the equates that every source starts with, every spelling of a well-formed node
is read as that node, with one exception: a reference to a label whose name is the system's own equate is
replaced by the equate's text, a number that does not fit in a word.
-/
import Dcpu16.Proofs.Instruction.Spelled
import Dcpu16.Proofs.Source.Address
import Dcpu16.Proofs.Source.Line

namespace Dcpu16

/-! ## The system's equate -/

def memorySizeName : Text := Text.ofString "MEMORY_SIZE"

def memorySizeText : Text := Text.ofString "0x10000"

namespace Equates

theorem systemEquates_get (word : Text) :
    systemEquates.get? word = if word = memorySizeName then some memorySizeText else none := by
  rw [show systemEquates = (({} : Equates).insert memorySizeName memorySizeText) from rfl, Table.get?_insert]
  rfl

theorem expand_of_ne {word : Text} (h : word ≠ memorySizeName) : systemEquates.expand word = word := by
  rw [expand, systemEquates_get, if_neg h]
  rfl

theorem systemEquates_named : systemEquates.Named := by
  intro name text h
  rw [systemEquates_get] at h
  split_ifs at h with heq
  rw [heq]
  rfl

/-- What is read from the text of a node: the node, unless one of its references is an equate. -/
def reread {α : Type} (references : List Text) (node : α) : Except LineError α :=
  if references.contains memorySizeName then .error (.notNumber memorySizeText) else .ok node

theorem reread_of_mem {α : Type} {references : List Text} (h : memorySizeName ∈ references) (node : α) :
    reread references node = .error (.notNumber memorySizeText) := if_pos (List.contains_iff_mem.2 h)

theorem reread_of_not_mem {α : Type} {references : List Text} (h : memorySizeName ∉ references) (node : α) :
    reread references node = .ok node := if_neg fun hmem => h (List.contains_iff_mem.1 hmem)

theorem reread_map {α β : Type} (references : List Text) (f : α → β) (node : α) :
    (reread references node).map f = reread references (f node) := by
  unfold reread
  split <;> rfl

/-! ## Literals -/

variable [Evaluator]

theorem literal_memorySize : systemEquates.literal memorySizeName = .error (.notNumber memorySizeText) := rfl

omit [Evaluator] in
/-- A number stands for itself. -/
theorem denotes_number {w : Word} {t : Text} (h : t.SameLetters w.render) : Numeral.Denotes (systemEquates.expand t) w := by
  have hdenotes := Numeral.denotes_of_sameLetters h
  rwa [systemEquates_named.expand_eq hdenotes.not_name]

theorem literal_spelled {l : Literal} {t : Text} (h : l.wellFormed = true) (hs : l.Spelled t) :
    systemEquates.literal t = reread l.references l := by
  have hword := hs.word h
  cases hs with
  | number letters => exact literal_denotes (by rw [hword.trim_eq]; exact denotes_number letters)
  | label name =>
    rw [Literal.wellFormed, Bool.and_eq_true, Option.isNone_iff_eq_none] at h
    by_cases hms : t = memorySizeName
    · subst hms
      exact literal_memorySize
    · have hempty : t.isEmpty = false := List.isEmpty_eq_false_iff.2 hword.ne_nil
      rw [literal, reread_of_not_mem (by simpa [Literal.references] using Ne.symm hms)]
      simp only [hword.trim_eq, expand_of_ne hms, hempty, h.1, h.2]
      rfl

/-! ## Words -/

omit [Evaluator] in
/-- What has the letters of another name is not the system's equate. -/
theorem ne_memorySize {t u : Text} (h : t.SameLetters u) (hu : Text.upper u ≠ Text.upper memorySizeName)
    (hword : Text.IsWord u) : t ≠ memorySizeName := by
  rintro rfl
  exact hu (h.upper_eq hword).symm

omit [Evaluator] in
theorem register_spelled {r : Register} {t : Text} (h : r.valid = true) (letters : t.SameLetters r.name) :
    systemEquates.register? t = some r := by
  have hne : ∀ r ∈ Register.all, Text.upper r.name ≠ Text.upper memorySizeName := by decide
  have hmem := Register.mem_all h
  have hword := Register.name_word h
  rw [register?, expand_of_ne (ne_memorySize letters (hne r hmem) hword), letters.upper_eq hword,
    Register.ofName_name r hmem]

omit [Evaluator] in
theorem register_literal {l : Literal} {t : Text} (h : l.wellFormed = true) (hs : l.Spelled t) :
    systemEquates.register? t = none := by
  cases hs with
  | number letters => exact register_denotes (denotes_number letters)
  | label name =>
    rw [Literal.wellFormed, Bool.and_eq_true, Option.isNone_iff_eq_none] at h
    by_cases hms : t = memorySizeName
    · subst hms
      rfl
    · rw [register?, expand_of_ne hms, h.2]

/-- The words for the stack. -/
theorem operand_stack {t u : Text} {o : Operand}
    (h : (u, o) ∈ [(Text.ofString "PUSH", Operand.push), (Text.ofString "POP", Operand.pop)]) (letters : t.SameLetters u) :
    systemEquates.operand t = .ok o := by
  have hwords : ∀ entry ∈ [(Text.ofString "PUSH", Operand.push), (Text.ofString "POP", Operand.pop)],
      Text.isName entry.1 = true ∧ Text.upper entry.1 = entry.1 ∧ entry.1 ≠ Text.upper memorySizeName := by decide
  obtain ⟨hname, hself, hne⟩ := hwords _ h
  have hword := Text.isName_word hname
  have hupper : Text.upper t = u := (letters.upper_eq hword).trans hself
  have hempty : t.isEmpty = false := List.isEmpty_eq_false_iff.2 (letters.word hword).ne_nil
  unfold operand
  simp only [(letters.word hword).trim_eq, expand_of_ne (ne_memorySize letters (hself ▸ hne) hword), hempty, hupper]
  simp only [List.mem_cons, List.not_mem_nil, or_false, Prod.mk.injEq] at h
  rcases h with ⟨rfl, rfl⟩ | ⟨rfl, rfl⟩ <;> rfl

/-- A word that is no keyword is a register or an immediate. -/
theorem operand_word {t : Text} (h : Text.IsWord t) (hms : t ≠ memorySizeName)
    (hk : Text.upper t ∉ Operand.keywords) :
    systemEquates.operand t =
      match systemEquates.register? t with
      | some r => .ok (.register r)
      | none => (systemEquates.literal t).map .immediate := by
  have hempty : t.isEmpty = false := List.isEmpty_eq_false_iff.2 h.ne_nil
  have hbracket : (91 : UInt8) ∉ Text.upper t := by
    rw [Text.mem_upper (fun b hb => Text.isWordByte_ascii b (h.bytes b hb)) (by decide)]
    exact h.not_mem rfl
  have hhead : t.head? ≠ some 91 := fun he => h.not_mem (b := 91) rfl (List.mem_of_head? he)
  have hmarks : Text.between? (Text.ofString "[") (Text.ofString "]") t = none := Text.between?_eq_none hhead
  have hpush : ¬ (Text.upper t = Text.ofString "PUSH" ∨ Text.upper t = Text.ofString "[--SP]") := by
    rintro (he | he)
    · exact hk (by rw [he]; decide)
    · exact hbracket (by rw [he]; decide)
  have hpop : ¬ (Text.upper t = Text.ofString "POP" ∨ Text.upper t = Text.ofString "[SP++]") := by
    rintro (he | he)
    · exact hk (by rw [he]; decide)
    · exact hbracket (by rw [he]; decide)
  have hpeek : Text.upper t ≠ Text.ofString "PEEK" := fun he => hk (by rw [he]; decide)
  unfold operand
  simp only [h.trim_eq, expand_of_ne hms, h.cutBlank_eq, hempty]
  rw [if_neg Bool.false_ne_true, if_neg hpush, if_neg hpop, if_neg hpeek, if_neg (by simp)]
  cases systemEquates.register? t <;> simp only [hmarks]

/-! ## Operands -/

theorem operand_offset {r : Register} {l : Literal} {t u x y z v : Text} (hr : r.valid = true) (hl : l.wellFormed = true)
    (hx : x.IsGap) (letters : t.SameLetters r.name) (hy : y.IsGap) (hz : z.IsGap) (hu : l.Spelled u) (hv : v.IsGap) :
    systemEquates.operand (91 :: (((x ++ (t ++ y)) ++ 43 :: (z ++ (u ++ v))) ++ [93])) =
      reread l.references (.offset r l) := by
  have htoken := (letters.word (Register.name_word hr)).token
  have hutoken := (hu.word hl).token
  have hparts := addressParts_plus (e := systemEquates) htoken hutoken hx.blank hy.blank hz.blank hv.blank
  have hother : systemEquates.registerAndOther? t u = some (r, u) := by
    rw [registerAndOther?, register_spelled hr letters]
  rw [operand_signed systemEquates_named htoken hutoken hx.blank hy.blank hz.blank hv.blank, indirection_plus hparts hother,
    literal_spelled hl hu, reread_map]

theorem operand_spelled {o : Operand} {s : Text} (h : o.wellFormed = true) (hs : o.Spelled s) :
    systemEquates.operand s = reread o.references o := by
  cases hs with
  | @register r _ letters =>
    have hne : ∀ r ∈ Register.all, Text.upper r.name ≠ Text.upper memorySizeName := by decide
    have hk : ∀ r ∈ Register.all, Text.upper r.name ∉ Operand.keywords := by decide
    have hmem := Register.mem_all h
    have hword := Register.name_word h
    rw [operand_word (letters.word hword) (ne_memorySize letters (hne r hmem) hword)
      (by rw [letters.upper_eq hword]; exact hk r hmem), register_spelled h letters]
    rfl
  | indirect hx letters hy =>
    have hword := letters.word (Register.name_word h)
    rw [operand_around systemEquates_named hword.token hx.blank hy.blank,
      indirection_register hword.token hx.blank hy.blank (register_spelled h letters)]
    rfl
  | offset hx letters hy hz literal hv =>
    rw [Operand.wellFormed, Bool.and_eq_true] at h
    exact operand_offset h.1 h.2 hx letters hy hz literal hv
  | memory hx literal hy =>
    have hword := literal.word h
    rw [operand_around systemEquates_named hword.token hx.blank hy.blank,
      indirection_literal hword.token hx.blank hy.blank (register_literal h literal),
      literal_spelled h literal]
    exact reread_map _ _ _
  | immediate literal =>
    rw [Operand.wellFormed, Bool.and_eq_true, Bool.not_eq_true'] at h
    cases literal with
    | number letters =>
      exact operand_denotes (by rw [(letters.word (Word.render_word _)).trim_eq]; exact denotes_number letters)
    | label name =>
      by_cases hms : s = memorySizeName
      · cases hms
        rfl
      · have hk : Text.upper s ∉ Operand.keywords := by simpa [Literal.isKeyword] using h.2
        have hspelled := Literal.Spelled.label s
        rw [operand_word (hspelled.word h.1) hms hk, register_literal h.1 hspelled, literal_spelled h.1 hspelled]
        exact reread_map _ _ _
  | push letters => exact operand_stack (by simp) letters
  | pop letters => exact operand_stack (by simp) letters

/-! ## Instructions -/

theorem destinationOperand_spelled {o : Operand} {s : Text} (hd : o.isDestination = true) (h : o.wellFormed = true)
    (hs : o.Spelled s) : systemEquates.destinationOperand s = reread o.references o := by
  rw [destinationOperand, operand_spelled h hs]
  by_cases hms : memorySizeName ∈ o.references
  · rw [reread_of_mem hms]
  · rw [reread_of_not_mem hms]
    exact if_pos hd

theorem valueOperand_spelled {o : Operand} {s : Text} (hv : o.isValue = true) (h : o.wellFormed = true)
    (hs : o.Spelled s) : systemEquates.valueOperand s = reread o.references o := by
  rw [valueOperand, operand_spelled h hs]
  by_cases hms : memorySizeName ∈ o.references
  · rw [reread_of_mem hms]
  · rw [reread_of_not_mem hms]
    exact if_pos hv

/-- The destination is read first, so a fault there hides one in the value; both would be the same. -/
theorem basic_spelled (op : BasicOp) {b a : Operand} {s t : Text} (hd : b.isDestination = true)
    (hb : b.wellFormed = true) (hs : b.Spelled s) (hv : a.isValue = true) (ha : a.wellFormed = true) (ht : a.Spelled t) :
    systemEquates.basic op [s, t] = reread (b.references ++ a.references) (.basic op b a) := by
  rw [basic, destinationOperand_spelled hd hb hs, valueOperand_spelled hv ha ht]
  by_cases hms : memorySizeName ∈ b.references
  · rw [reread_of_mem hms, reread_of_mem (List.mem_append_left _ hms)]
  · rw [reread_of_not_mem hms]
    simp only [reread_map]
    by_cases hms' : memorySizeName ∈ a.references
    · rw [reread_of_mem hms', reread_of_mem (List.mem_append_right _ hms')]
    · rw [reread_of_not_mem hms', reread_of_not_mem (by simp [hms, hms'])]

theorem datum_spelled {d : Datum} {s : Text} (h : d.wellFormed = true) (hs : d.Spelled s) :
    systemEquates.datum s = .ok d := by
  cases hs with
  | label name => exact if_pos h
  | word letters =>
    have hliteral := literal_spelled (l := .number _) rfl (.number letters)
    obtain ⟨b, rest, heq, hb⟩ := (Numeral.denotes_of_sameLetters letters).head
    rw [datum, hliteral]
    · rfl
    · rintro more rfl
      cases heq
      cases hb
    · rintro more rfl
      cases heq
      cases hb
  | string t =>
    have hmarks : Text.between? (Text.ofString "\"") (Text.ofString "\"") (34 :: (Text.escape t ++ [34])) =
        some (Text.escape t) := Text.between?_marks [34] (Text.escape t) [34]
    rw [Text.literal, datum, hmarks, Option.bind_some, Text.unescape_escape]
    exact if_pos h

theorem dataOnto_spelled {ds : List Datum} {ts : List Text} (h : ∀ d ∈ ds, d.wellFormed = true)
    (hs : List.Forall₂ Datum.Spelled ds ts) (acc : List Datum) :
    systemEquates.dataOnto acc ts = .ok (acc.reverse ++ ds) := by
  induction hs generalizing acc with
  | nil => simp [dataOnto]
  | @cons d t ds ts hd _ ih =>
    rw [dataOnto, datum_spelled (h d List.mem_cons_self) hd]
    simp only
    rw [ih fun x hx => h x (List.mem_cons_of_mem _ hx)]
    simp

end Equates

/-! ## Lines -/

namespace Line

theorem parse_label [Evaluator] (e : Equates) {name : Text} (h : Text.isName name = true) :
    parse e (58 :: name) = .ok ([.label name], e) := by
  have hends : ([] : Text) ≠ [] ∨ ([] : Text) = [] := .inr rfl
  have hparse := parse_labelled e (.front name) h .nil hends
  rwa [List.append_nil, List.append_nil] at hparse

theorem arguments_listed {ts : List Text} {list : Text} (h : Text.Listed ts list) (hts : ∀ t ∈ ts, Text.Piece t) :
    Equates.arguments list = ts := by
  have htidy := h.tidy fun t ht => (hts t ht).toTidy
  rw [Equates.arguments, List.isEmpty_eq_false_iff.2 htidy.ne_nil]
  exact h.splitTop_eq hts

/-- However an instruction is spelled, its line is read as it. -/
theorem parse_spelled [Evaluator] {i : Instruction} {s : Text} (h : i.wellFormed = true) (hs : i.Spelled s) :
    parse systemEquates s = Equates.reread i.references ([i], systemEquates) := by
  cases hs with
  | @basic op b a m gap s t list letters hgap hne destination value listed =>
    simp only [Instruction.wellFormed, Bool.and_eq_true] at h
    obtain ⟨⟨hop, hd, hb⟩, hv, ha⟩ := h
    have hmem := BasicOp.mem_all hop
    have hname := BasicOp.isName_name op hmem
    have hnot : ∀ op ∈ BasicOp.all, Text.upper op.name ∉ directives := by decide +kernel
    have hupper := letters.upper_eq (Text.isName_word hname)
    have hpieces : ∀ u ∈ [s, t], Text.Piece u := by
      intro u hu
      simp only [List.mem_cons, List.not_mem_nil, or_false] at hu
      rcases hu with rfl | rfl
      · exact destination.piece hb
      · exact value.piece ha
    have htidy := listed.tidy fun u hu => (hpieces u hu).toTidy
    rw [parse_operation _ (.of_letters letters hname) (hupper ▸ hnot op hmem) hgap.blank hne, hupper, htidy.trim_eq,
      Equates.instruction, BasicOp.ofName_name op hmem]
    simp only [arguments_listed listed hpieces]
    rw [Equates.basic_spelled op hd hb destination hv ha value, Equates.reread_map]
    rfl
  | @special op a m gap t letters hgap hne value =>
    simp only [Instruction.wellFormed, Bool.and_eq_true] at h
    obtain ⟨hop, hv, ha⟩ := h
    have hmem := SpecialOp.mem_all hop
    have hname := SpecialOp.isName_name op hmem
    have hnot : ∀ op ∈ SpecialOp.all, Text.upper op.name ∉ directives := by decide +kernel
    have hupper := letters.upper_eq (Text.isName_word hname)
    have hpiece := value.piece ha
    have hargs : Equates.arguments t = [t] :=
      arguments_listed (.one t) fun u hu => List.mem_singleton.1 hu ▸ hpiece
    rw [parse_operation _ (.of_letters letters hname) (hupper ▸ hnot op hmem) hgap.blank hne, hupper, hpiece.trim_eq,
      Equates.instruction, (SpecialOp.ofName_name op hmem).1]
    simp only [(SpecialOp.ofName_name op hmem).2, hargs]
    rw [Equates.special, Equates.valueOperand_spelled hv ha value, Equates.reread_map, Equates.reread_map]
    rfl
  | label name => exact parse_label _ h
  | @data items m gap list ts letters hgap hne spelled listed =>
    simp only [Instruction.wellFormed, Bool.and_eq_true, List.all_eq_true] at h
    have hpieces := Datum.pieces_of_spelled spelled h.2
    have htidy := listed.tidy fun u hu => (hpieces u hu).toTidy
    have hname : Text.isName (Text.ofString "DAT") = true := rfl
    have hdata : systemEquates.data list = .ok (.data items) := by
      rw [Equates.data, htidy.trim_eq, List.isEmpty_eq_false_iff.2 htidy.ne_nil, listed.splitTop_eq hpieces,
        Equates.dataOnto_spelled h.2 spelled]
      rfl
    rw [parse_mnemonic _ (.of_letters letters hname) hgap.blank hne, letters.upper_eq (Text.isName_word hname),
      htidy.trim_eq, hdata]
    rfl

end Line

end Dcpu16
