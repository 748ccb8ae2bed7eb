/-
Operands read with any equates. What stands for a numeral is a number wherever a literal is read, and never a register
or a keyword. Equates have names, so a text that is no name stands for itself: brackets are read as what is inside them,
and the short form for a place on the stack as the literal after it. Inside brackets the parts around a plus sign, or
around a minus sign after a register, are read by themselves.
-/
import Dcpu16.Proofs.Instruction.Names
import Dcpu16.Proofs.Table
import Dcpu16.Proofs.Text.Numeral
import Dcpu16.Source.Basic

namespace Dcpu16

theorem Register.isWord_of_ofName {t : Text} {r : Register} (h : ofName? t = some r) : Text.IsWord t := by
  have hname : r.name = t := by simpa using List.find?_some h
  exact hname ▸ Text.isName_word (isName_name r (List.mem_of_find?_eq_some h))

/-- The names of registers begin with letters. -/
theorem Register.ofName_eq_none {b : UInt8} (hb : b < 65) (t : Text) : ofName? (Text.upper (b :: t)) = none := by
  have hnames : all.all (fun r => r.name.head?.any (65 ≤ ·)) = true := by decide +kernel
  have hbyte : ∀ b : UInt8, b < 65 → b < 0x80 ∧ Text.upperByte b = b :=
    Text.forall_byte (p := fun b => b < 65 → b < 0x80 ∧ Text.upperByte b = b) (by decide +kernel)
  obtain ⟨hascii, hself⟩ := hbyte b hb
  refine List.find?_eq_none.2 fun r hr => ?_
  have hname := List.all_eq_true.1 hnames r hr
  rw [beq_iff_eq]
  intro heq
  rw [heq, Text.upper_cons hascii, hself] at hname
  exact absurd hb (UInt8.not_lt.2 (of_decide_eq_true hname))

namespace Equates

variable {e : Equates}

/-! ## Equates with names -/

/-- What is defined is a name. -/
def Named (e : Equates) : Prop := ∀ name text, e.get? name = some text → Text.isName name = true

namespace Named

theorem insert (h : e.Named) {name : Text} (hname : Text.isName name = true) (text : Text) :
    Named (e.insert name text) := by
  intro other value hget
  rw [Table.get?_insert] at hget
  split_ifs at hget with heq
  · rwa [heq]
  · exact h other value hget

/-- A text that is no name stands for itself. -/
theorem expand_eq (h : e.Named) {word : Text} (hword : Text.isName word = false) : e.expand word = word := by
  rw [expand]
  cases hget : e.get? word with
  | none => rfl
  | some text =>
    rw [h word text hget] at hword
    cases hword

/-- What names a register, directly or through an equate, is a token. -/
theorem register_token (h : e.Named) {t : Text} {r : Register} (hr : e.register? t = some r) : Text.IsToken t := by
  rw [register?, expand] at hr
  cases hget : e.get? t with
  | some text => exact (Text.isName_word (h t text hget)).token
  | none =>
    rw [hget] at hr
    exact Text.token_of_upper (Register.isWord_of_ofName hr)

end Named

/-! ## Numbers -/

section Numbers

variable {t : Text} {w : Word}

theorem register_denotes (h : Numeral.Denotes (e.expand t) w) : e.register? t = none := by
  obtain ⟨b, rest, heq, hb⟩ := h.head
  rw [register?, heq]
  exact Register.ofName_eq_none (Numeral.startsNumeral_lt b hb) rest

variable [Evaluator]

theorem value_denotes (h : Numeral.Denotes t w) : e.value t = .ok w := by
  obtain ⟨b, rest, heq, hb⟩ := h.head
  have hhead : ∀ x, Numeral.startsNumeral x = false → t.head? ≠ some x := by
    rintro x hx he
    rw [heq] at he
    cases he
    rw [hb] at hx
    cases hx
  have hexpression : Text.between? (Text.ofString "$(") (Text.ofString ")") t = none :=
    Text.between?_eq_none (hhead 36 rfl)
  have hcharacter : Text.between? (Text.ofString "'") (Text.ofString "'") t = none :=
    Text.between?_eq_none (hhead 39 rfl)
  rw [value, hexpression, hcharacter]
  simp only
  rw [h]

theorem literal_denotes (h : Numeral.Denotes (e.expand (Text.trim t)) w) : e.literal t = .ok (.number w) := by
  obtain ⟨b, rest, heq, -⟩ := h.head
  have hempty : (e.expand (Text.trim t)).isEmpty = false := by rw [heq]; rfl
  rw [literal]
  simp only [hempty, h.not_name, value_denotes h]
  rfl

theorem operand_denotes (h : Numeral.Denotes (e.expand (Text.trim t)) w) :
    e.operand t = .ok (.immediate (.number w)) := by
  obtain ⟨b, rest, heq, hb⟩ := h.head
  have hempty : (e.expand (Text.trim t)).isEmpty = false := by rw [heq]; rfl
  have hcut := (Text.unbroken_of_solid h.solid).cutBlank_eq
  have hmarks : Text.between? (Text.ofString "[") (Text.ofString "]") (e.expand (Text.trim t)) = none := by
    refine Text.between?_eq_none fun he => ?_
    rw [heq] at he
    cases he
    cases hb
  have hword : e.literal (Text.trim t) = .ok (.number w) := literal_denotes (by rwa [Text.trim_trim])
  unfold operand
  simp only [hempty, hcut]
  rw [if_neg Bool.false_ne_true, if_neg (not_or.2 ⟨h.upper_ne (by decide +kernel), h.upper_ne (by decide +kernel)⟩),
    if_neg (not_or.2 ⟨h.upper_ne (by decide +kernel), h.upper_ne (by decide +kernel)⟩),
    if_neg (h.upper_ne (by decide +kernel)), if_neg (by simp)]
  simp only [hmarks, register_denotes h, hword]
  rfl

theorem settle_denotes (h : Numeral.Denotes (e.expand t) w) :
    e.settle t = Text.ofString "0x" ++ Numeral.digits 16 w.toNat := by
  rw [settle, value_denotes h]

end Numbers

/-! ## Addresses -/

section Parts

variable {s t x y z v : Text}

/-- One token with white space around it. -/
theorem addressParts_one (ht : t.IsToken) (hx : x.IsBlank) (hy : y.IsBlank) :
    e.addressParts (x ++ (t ++ y)) = ([t], false) := by
  have hquiet := ht.quiet_around hx hy
  have hsplit : Text.splitTop (Text.byte '+') (x ++ (t ++ y)) = [t] := by
    refine (Text.splitTop_part (Text.part_of_quiet rfl hquiet)).trans ?_
    rw [ht.trim_eq hx hy]
  have hcut : Text.cutAt? (Text.byte '-') (x ++ (t ++ y)) = none := Text.cutAt?_eq_none (Text.not_mem_of_quiet hquiet rfl)
  rw [addressParts, hsplit, hcut]

/-- A plus sign between two parts. -/
theorem addressParts_sum (hs : Text.Part 43 s) (ht : Text.Part 43 t) :
    e.addressParts (s ++ 43 :: t) = ([Text.trim s, Text.trim t], false) := by
  have hsplit : Text.splitTop (Text.byte '+') (s ++ 43 :: t) = [Text.trim s, Text.trim t] := by
    refine (Text.splitTop_cons rfl hs t).trans ?_
    rw [Text.splitTop_part ht]
  rw [addressParts, hsplit]

theorem addressParts_plus (hs : s.IsToken) (ht : t.IsToken) (hx : x.IsBlank) (hy : y.IsBlank) (hz : z.IsBlank)
    (hv : v.IsBlank) : e.addressParts ((x ++ (s ++ y)) ++ 43 :: (z ++ (t ++ v))) = ([s, t], false) := by
  rw [addressParts_sum (Text.part_of_quiet rfl (hs.quiet_around hx hy)) (Text.part_of_quiet rfl (ht.quiet_around hz hv)),
    hs.trim_eq hx hy, ht.trim_eq hz hv]

/-- A minus sign after a register is an operator. -/
theorem addressParts_difference (hs : s.IsToken) (hx : x.IsBlank) (hy : y.IsBlank) (ht : Text.Part 43 t)
    (hr : (e.register? s).isSome = true) :
    e.addressParts ((x ++ (s ++ y)) ++ 45 :: t) = ([s, Text.trim t], true) := by
  have hleft := hs.quiet_around hx hy
  -- no plus sign on either side, so there is one part
  have hpart : Text.Part 43 ((x ++ (s ++ y)) ++ 45 :: t) :=
    (Text.part_of_quiet rfl hleft).append (Text.Part.append (t := [45]) ⟨rfl, rfl, trivial⟩ ht)
  have hsplit : ∃ part, Text.splitTop (Text.byte '+') ((x ++ (s ++ y)) ++ 45 :: t) = [part] :=
    ⟨_, Text.splitTop_part hpart⟩
  have hcut : Text.cutAt? (Text.byte '-') ((x ++ (s ++ y)) ++ 45 :: t) = some (x ++ (s ++ y), t) :=
    Text.cutAt?_append (Text.not_mem_of_quiet hleft rfl) _
  have hempty : s.isEmpty = false := List.isEmpty_eq_false_iff.2 hs.ne_nil
  obtain ⟨part, hsplit⟩ := hsplit
  rw [addressParts, hsplit, hcut]
  simp only [hs.trim_eq hx hy, hempty, hr]
  rfl

theorem addressParts_minus (hs : s.IsToken) (ht : t.IsToken) (hx : x.IsBlank) (hy : y.IsBlank) (hz : z.IsBlank)
    (hv : v.IsBlank) (hr : (e.register? s).isSome = true) :
    e.addressParts ((x ++ (s ++ y)) ++ 45 :: (z ++ (t ++ v))) = ([s, t], true) := by
  rw [addressParts_difference hs hx hy (Text.part_of_quiet rfl (ht.quiet_around hz hv)) hr, ht.trim_eq hz hv]

end Parts

variable [Evaluator] {inner s t u x y z v : Text} {r : Register}

theorem indirection_register (ht : t.IsToken) (hx : x.IsBlank) (hy : y.IsBlank) (hr : e.register? t = some r) :
    e.indirection (x ++ (t ++ y)) = .ok (.indirect r) := by
  rw [indirection, addressParts_one ht hx hy]
  simp only [hr]

theorem indirection_literal (ht : t.IsToken) (hx : x.IsBlank) (hy : y.IsBlank) (hr : e.register? t = none) :
    e.indirection (x ++ (t ++ y)) = (e.literal t).map .memory := by
  rw [indirection, addressParts_one ht hx hy]
  simp only [hr]

theorem indirection_plus (hparts : e.addressParts inner = ([t, u], false)) {other : Text}
    (hr : e.registerAndOther? t u = some (r, other)) : e.indirection inner = (e.literal other).map (.offset r) := by
  rw [indirection, hparts]
  simp only [hr]
  cases e.literal other <;> rfl

theorem indirection_minus (hparts : e.addressParts inner = ([t, u], true)) (hr : e.register? t = some r) {w : Word}
    (hu : e.literal u = .ok (.number w)) : e.indirection inner = .ok (.offset r (.number (-w))) := by
  have hother : e.registerAndOther? t u = some (r, u) := by rw [registerAndOther?, hr]
  rw [indirection, hparts]
  simp only [hother, hu]

/-! ## Brackets and the short form -/

omit [Evaluator] in
theorem upper_ne_push (h : inner.head? ≠ some 45) : Text.upper inner ≠ Text.ofString "--SP" :=
  fun he => h (Text.head_of_upper (x := 45) (by decide) (by rw [he]; rfl))

omit [Evaluator] in
theorem upper_ne_pop (h : inner.getLast? ≠ some 43) : Text.upper inner ≠ Text.ofString "SP++" :=
  fun he => h (Text.last_of_upper (x := 43) (by decide) (by rw [he]; rfl))

/-- What is in brackets is an address, if it is not one of the two forms for the stack. -/
theorem operand_brackets (h : e.Named) (hpush : Text.upper inner ≠ Text.ofString "--SP")
    (hpop : Text.upper inner ≠ Text.ofString "SP++") :
    e.operand (91 :: (inner ++ [93])) = e.indirection inner := by
  have hsolid : ∀ b ∈ (91 :: (inner ++ [93]) : Text).getLast?, Text.isSolid b = true := by
    rw [← List.cons_append, List.getLast?_concat]
    rintro b hb
    cases hb
    rfl
  have htrim : Text.trim (91 :: (inner ++ [93])) = 91 :: (inner ++ [93]) :=
    Text.trim_eq_self (fun b hb => by cases hb; rfl) hsolid
  have hmarks : Text.between? (Text.ofString "[") (Text.ofString "]") (91 :: (inner ++ [93])) = some inner :=
    Text.between?_marks [91] inner [93]
  have hpick : Text.upper (Text.cutBlank (91 :: (inner ++ [93]))).1 ≠ Text.ofString "PICK" := by
    obtain ⟨word, hcut⟩ := Text.cutBlank_head (b := 91) rfl (inner ++ [93])
    rw [hcut, Text.upper_cons (by decide)]
    exact fun he => absurd (List.cons.inj he).1 (by decide)
  -- the upper case is in brackets too
  have hupper : Text.upper (91 :: (inner ++ [93])) = 91 :: (Text.upper inner ++ [93]) := by
    rw [Text.upper_cons (by decide), Text.upper_append inner (by decide +kernel)]
    rfl
  have hinside : ∀ {s : Text}, Text.upper (91 :: (inner ++ [93])) = 91 :: (s ++ [93]) → Text.upper inner = s := by
    intro s he
    rw [hupper] at he
    exact List.append_cancel_right (List.cons.inj he).2
  have hword : ∀ s : Text, s.head? ≠ some 91 → Text.upper (91 :: (inner ++ [93])) ≠ s := by
    rintro s hs rfl
    exact hs (by rw [hupper]; rfl)
  have hpush' : Text.upper (91 :: (inner ++ [93])) ≠ Text.ofString "[--SP]" := fun he => hpush (hinside he)
  have hpop' : Text.upper (91 :: (inner ++ [93])) ≠ Text.ofString "[SP++]" := fun he => hpop (hinside he)
  have hself : e.expand (91 :: (inner ++ [93])) = 91 :: (inner ++ [93]) := h.expand_eq rfl
  unfold operand
  simp only [htrim, hself]
  rw [if_neg (by simp), if_neg (not_or.2 ⟨hword _ (by decide), hpush'⟩), if_neg (not_or.2 ⟨hword _ (by decide), hpop'⟩),
    if_neg (hword _ (by decide)), if_neg fun he => hpick he.1]
  simp only [hmarks]

/-- One token in brackets. -/
theorem operand_around (h : e.Named) (ht : t.IsToken) (hx : x.IsBlank) (hy : y.IsBlank) :
    e.operand (91 :: ((x ++ (t ++ y)) ++ [93])) = e.indirection (x ++ (t ++ y)) := by
  have hquiet := ht.quiet_around hx hy
  refine operand_brackets h (upper_ne_push fun he => ?_) (upper_ne_pop fun he => ?_)
  · exact Text.not_mem_of_quiet hquiet rfl (List.mem_of_head? he)
  · exact Text.not_mem_of_quiet hquiet rfl (List.mem_of_getLast? he)

/-- Two tokens in brackets, with a sign between them. -/
theorem operand_signed (h : e.Named) (hs : s.IsToken) (ht : t.IsToken) (hx : x.IsBlank) (hy : y.IsBlank)
    (hz : z.IsBlank) (hv : v.IsBlank) (sign : UInt8) :
    e.operand (91 :: (((x ++ (s ++ y)) ++ sign :: (z ++ (t ++ v))) ++ [93])) =
      e.indirection ((x ++ (s ++ y)) ++ sign :: (z ++ (t ++ v))) := by
  have hne : x ++ (s ++ y) ≠ [] := by simp [hs.ne_nil]
  have hne' : z ++ (t ++ v) ≠ [] := by simp [ht.ne_nil]
  refine operand_brackets h (upper_ne_push fun he => ?_) (upper_ne_pop fun he => ?_)
  · rw [List.head?_append_of_ne_nil _ hne] at he
    exact Text.not_mem_of_quiet (hs.quiet_around hx hy) rfl (List.mem_of_head? he)
  · rw [List.getLast?_append_of_ne_nil _ (by simp), List.getLast?_cons_of_ne_nil hne'] at he
    exact Text.not_mem_of_quiet (ht.quiet_around hz hv) rfl (List.mem_of_getLast? he)

/-- The short form for a place on the stack, in any letter case and with any white space before the literal. -/
theorem operand_pick (h : e.Named) {word gap : Text} (hword : Text.upper word = Text.ofString "PICK")
    (hgap : Text.IsBlank gap) (hne : gap ≠ []) (hlast : ∃ b ∈ t.getLast?, Text.isSolid b = true) :
    e.operand (word ++ (gap ++ t)) = (e.literal t).map (.offset .sp) := by
  have htoken := Text.token_of_keyword rfl hword
  have htrail := hgap.head_append hne t
  have htrim : Text.trim (word ++ (gap ++ t)) = word ++ (gap ++ t) := by
    refine htoken.unbroken.trim_append htoken.ne_nil htrail fun b hb => ?_
    obtain ⟨x, hx, hsolid⟩ := hlast
    rw [Option.mem_def] at hx hb
    rw [List.getLast?_append, List.getLast?_append, hx] at hb
    cases hb
    exact hsolid
  -- the white space shows that the text is no name, and what is before it that it is no keyword
  have hcut := htoken.unbroken.cutBlank_gap hgap hne t
  have hname : Text.isName (word ++ (gap ++ t)) = false := by
    rw [Bool.eq_false_iff]
    intro hname
    rw [(Text.isName_word hname).cutBlank_eq] at hcut
    exact hne (List.append_eq_nil_iff.1 (Prod.ext_iff.1 hcut).2.symm).1
  have hupper : Text.upper (word ++ (gap ++ t)) = Text.ofString "PICK" ++ Text.upper (gap ++ t) := by
    rw [Text.upper_append word, hword]
    intro b hb
    have hnone := htrail b hb
    constructor
    · rintro rfl
      cases hnone
    · rintro rfl
      cases hnone
  have hkeyword : ∀ s : Text, ¬ Text.ofString "PICK" <+: s → Text.upper (word ++ (gap ++ t)) ≠ s := by
    rintro s hs rfl
    exact hs (by rw [hupper]; exact List.prefix_append _ _)
  have hempty : (word ++ (gap ++ t)).isEmpty = false := by simp [htoken.ne_nil]
  have hliteral : e.literal (gap ++ t) = e.literal t := by
    rw [literal, literal, Text.trim_blank_left hgap]
  have htail : (gap ++ t).isEmpty = false := by simp [hne]
  unfold operand
  simp only [htrim, h.expand_eq hname, hcut, hempty, hliteral]
  rw [if_neg Bool.false_ne_true, if_neg (not_or.2 ⟨hkeyword _ (by decide), hkeyword _ (by decide)⟩),
    if_neg (not_or.2 ⟨hkeyword _ (by decide), hkeyword _ (by decide)⟩), if_neg (hkeyword _ (by decide)),
    if_pos ⟨hword, by rw [htail]; rfl⟩]

end Equates

end Dcpu16
