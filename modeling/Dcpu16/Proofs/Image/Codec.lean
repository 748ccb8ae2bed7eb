/-
Fields and operands, both ways. An instruction word is the number `a * 1024 + b * 32 + code` of its
fields, so packing and splitting undo each other. The code of an encoded operand is one of its position and
tells whether a literal goes with it. What a field code decodes to encodes back to that
code with the same trailing word, unless the code is the one of the next word and a small number follows
it: a decoder that is not canonical takes that, and encoding folds it into a code of its own.
-/
import Mathlib.Tactic.Common
import Dcpu16.Image.Cell
import Dcpu16.Image.Decode

namespace Dcpu16

/-! ## Fields of a word -/

namespace Word

theorem lowField_toNat (w : Word) : w.lowField.toNat = w.toNat % 32 := by
  unfold lowField
  rw [UInt16.toNat_and]
  exact Nat.and_two_pow_sub_one_eq_mod w.toNat 5

theorem middleField_toNat (w : Word) : w.middleField.toNat = w.toNat / 32 % 32 := by
  unfold middleField
  rw [UInt16.toNat_and, UInt16.toNat_shiftRight, Nat.shiftRight_eq_div_pow]
  exact Nat.and_two_pow_sub_one_eq_mod (w.toNat / 32) 5

theorem highField_toNat (w : Word) : w.highField.toNat = w.toNat / 1024 := by
  unfold highField
  rw [UInt16.toNat_shiftRight, Nat.shiftRight_eq_div_pow]
  rfl

theorem shiftLeft_toNat (w k : Word) (n : Nat) (hk : k.toNat = n) (hn : n < 16) (hw : w.toNat <<< n < 65536) :
    (w <<< k).toNat = w.toNat <<< n := by
  rw [UInt16.toNat_shiftLeft, hk, Nat.mod_eq_of_lt hn, Nat.mod_eq_of_lt hw]

/-- Fields that fit do not overlap. -/
theorem packBasic_toNat {code b a : Word} (hc : code.toNat < 32) (hb : b.toNat < 32) (ha : a.toNat < 64) :
    (packBasic code b a).toNat = a.toNat * 1024 + b.toNat * 32 + code.toNat := by
  have ha' : a.toNat <<< 10 < 65536 := by rw [Nat.shiftLeft_eq]; omega
  have hb' : b.toNat <<< 5 < 65536 := by rw [Nat.shiftLeft_eq]; omega
  unfold packBasic
  rw [UInt16.toNat_or, UInt16.toNat_or, shiftLeft_toNat a 10 10 rfl (by decide) ha',
    shiftLeft_toNat b 5 5 rfl (by decide) hb', Nat.shiftLeft_eq, Nat.shiftLeft_eq]
  have high : a.toNat * 2 ^ 10 ||| b.toNat * 2 ^ 5 = 2 ^ 5 * (a.toNat * 32 + b.toNat) := by
    rw [Nat.mul_comm a.toNat, ← Nat.two_pow_add_eq_or_of_lt (by omega)]
    omega
  rw [high, ← Nat.two_pow_add_eq_or_of_lt (by omega)]
  omega

theorem packSpecial_eq (code a : Word) : packSpecial code a = packBasic 0 code a := by
  unfold packSpecial packBasic
  rw [UInt16.or_zero]

theorem packBasic_fields (w : Word) : packBasic w.lowField w.middleField w.highField = w := by
  have hw := w.toNat_lt
  have hc := w.lowField_toNat
  have hb := w.middleField_toNat
  have ha := w.highField_toNat
  apply UInt16.toNat_inj.mp
  rw [packBasic_toNat (by omega) (by omega) (by omega)]
  omega

theorem packSpecial_fields (w : Word) (h : w.lowField = 0) : packSpecial w.middleField w.highField = w := by
  rw [packSpecial_eq, ← h, packBasic_fields]

/-- A small literal that stands in a code is folded into that code again. -/
theorem inlineCode_of_inlineLiteral {code w : Word} (h : inlineLiteral? code = some w) : inlineCode? w = some code := by
  unfold inlineLiteral? at h
  split at h
  · rename_i hc
    obtain ⟨h1, h2⟩ := hc
    cases h
    unfold inlineCode?
    rw [UInt16.sub_add_cancel, if_pos]
    rw [UInt16.le_iff_toNat_le] at h1 h2
    rw [UInt16.le_iff_toNat_le, ← UInt16.toNat_inj, UInt16.toNat_sub]
    change 32 ≤ code.toNat at h1
    change code.toNat ≤ 63 at h2
    change (65536 - 33 + code.toNat) % 65536 ≤ 30 ∨ (65536 - 33 + code.toNat) % 65536 = 65535
    omega
  · cases h

/-- The codes of small literals are those from `0x20` on, and each holds its own literal. -/
theorem inlineCode_ok {w c : Word} (h : inlineCode? w = some c) :
    0x20 ≤ c.toNat ∧ c.toNat < 0x40 ∧ inlineLiteral? c = some w := by
  unfold inlineCode? at h
  split at h
  · rename_i hw
    cases h
    have hc : (w + 0x21).toNat = (w.toNat + 0x21) % 65536 := UInt16.toNat_add w 0x21
    have hbounds : 0x20 ≤ (w + 0x21).toNat ∧ (w + 0x21).toNat < 0x40 := by
      rw [hc]
      rcases hw with hw | rfl
      · rw [UInt16.le_iff_toNat_le] at hw
        change w.toNat ≤ 30 at hw
        omega
      · decide
    refine ⟨hbounds.1, hbounds.2, ?_⟩
    unfold inlineLiteral?
    rw [if_pos, UInt16.add_sub_cancel]
    rw [UInt16.le_iff_toNat_le, UInt16.le_iff_toNat_le]
    change 0x20 ≤ (w + 0x21).toNat ∧ (w + 0x21).toNat ≤ 0x3f
    omega
  · cases h

/-- The code of a small literal is followed by no word. -/
theorem takesNext_of_inline {code : Word} (h : 0x20 ≤ code.toNat) : code.takesNext = false := by
  have hne : ∀ k : Word, k.toNat < 0x20 → (code == k) = false := by
    intro k hk
    rw [beq_eq_false_iff_ne]
    rintro rfl
    omega
  have hle : decide (code ≤ 0x17) = false := by
    rw [decide_eq_false_iff_not, UInt16.le_iff_toNat_le]
    change ¬ code.toNat ≤ 0x17
    omega
  rw [takesNext, hle, hne 0x1a (by decide), hne 0x1e (by decide), hne 0x1f (by decide), Bool.and_false]
  rfl

end Word

/-! ## Operations -/

theorem BasicOp.code_of_ofCode {code : Word} {op : BasicOp} (h : ofCode? code = some op) : op.code? = some code := by
  simpa using List.find?_some h

theorem SpecialOp.code_of_ofCode {code : Word} {op : SpecialOp} (h : ofCode? code = some op) :
    op.code? = some code := by
  simpa using List.find?_some h

/-! ## Codes and their literals -/

/-- The code of a field is below the limit, and the field has a literal exactly if the code takes a word. -/
structure Field.Fits (limit : Nat) (f : Field) : Prop where
  below : f.code.toNat < limit
  next : f.next.isSome = f.code.takesNext

namespace Field

variable {limit : Nat} {code : Word}

theorem fits_alone (h : code.toNat < limit ∧ code.takesNext = false) : Fits limit { code } := ⟨h.1, h.2.symm⟩

theorem fits_next (l : Literal) (h : code.toNat < limit ∧ code.takesNext = true) :
    Fits limit { code, next := some l } := ⟨h.1, h.2.symm⟩

end Field

namespace Register

variable {r : Register} {f : Field}

theorem field_fits (h : r.field = .ok f) : f.Fits 0x1f := by
  have hgeneral : ∀ n : Fin 8, n.val.toUInt16.toNat < 0x1f ∧ Word.takesNext n.val.toUInt16 = false := by decide
  cases r with
  | general n => cases h; exact Field.fits_alone (hgeneral n)
  | sp => cases h; exact Field.fits_alone (by decide)
  | pc => cases h; exact Field.fits_alone (by decide)
  | ex => cases h; exact Field.fits_alone (by decide)
  | invalid n => cases h

theorem indirectField_fits (h : r.indirectField = .ok f) : f.Fits 0x1f := by
  have hgeneral : ∀ n : Fin 8,
      (0x08 + n.val.toUInt16).toNat < 0x1f ∧ Word.takesNext (0x08 + n.val.toUInt16) = false := by decide
  cases r with
  | general n => cases h; exact Field.fits_alone (hgeneral n)
  | sp => cases h; exact Field.fits_alone (by decide)
  | pc => cases h
  | ex => cases h
  | invalid n => cases h

theorem offsetField_fits {l : Literal} (h : r.offsetField l = .ok f) : f.Fits 0x1f := by
  have hgeneral : ∀ n : Fin 8,
      (0x10 + n.val.toUInt16).toNat < 0x1f ∧ Word.takesNext (0x10 + n.val.toUInt16) = true := by decide
  cases r with
  | general n => cases h; exact Field.fits_next l (hgeneral n)
  | sp => cases h; exact Field.fits_next l (by decide)
  | pc => cases h
  | ex => cases h
  | invalid n => cases h

end Register

theorem Literal.field_fits (l : Literal) : l.field.Fits 0x40 := by
  cases l with
  | label name => exact Field.fits_next _ (by decide)
  | number w =>
    cases hw : w.inlineCode? with
    | some c =>
      obtain ⟨hlow, hhigh, -⟩ := Word.inlineCode_ok hw
      have hfield : (Literal.number w).field = { code := c } := by simp [field, hw]
      rw [hfield]
      exact Field.fits_alone ⟨hhigh, Word.takesNext_of_inline hlow⟩
    | none =>
      have hfield : (Literal.number w).field = { code := Word.nextLiteralCode, next := some (.number w) } := by
        simp [field, hw]
      rw [hfield]
      exact Field.fits_next _ (by decide)

/-! ## Operands -/

namespace Decode

/-- The encoder of a position. -/
def Position.encode : Position → Operand → Except OperandError Field
  | .value => Operand.encodeValue
  | .destination => Operand.encodeDestination

/-- The number of the general register of a code is what the code adds to a multiple of eight. -/
theorem general_val (code base : Word) (h1 : base ≤ code) (h2 : code < base + 8) (h3 : base.toNat % 8 = 0)
    (h4 : base.toNat < 0x100) : base + (code.toNat % 8).toUInt16 = code := by
  rw [UInt16.le_iff_toNat_le] at h1
  rw [UInt16.lt_iff_toNat_lt, UInt16.toNat_add] at h2
  have h5 : (8 : Word).toNat = 8 := rfl
  have h6 := Nat.mod_lt code.toNat (show 0 < 8 by decide)
  apply UInt16.toNat_inj.mp
  rw [UInt16.toNat_add]
  change (base.toNat + code.toNat % 8 % 65536) % 65536 = code.toNat
  omega

/-- Decoding and encoding an operand gives back its code and its trailing word. -/
structure Recoded (p : Position) (code : Word) (rest : List Word) (o : Operand) (n : Nat) : Prop where
  within : n ≤ rest.length
  encoded : ∃ f, p.encode o = .ok f ∧ f.code = code ∧ f.trailing = (rest.take n).map .word

theorem withNext_recoded {p : Position} {code : Word} {rest : List Word} {g : Literal → Operand} {o : Operand}
    {n : Nat} (h : withNext g rest = some (o, n))
    (hg : ∀ l, p.encode (g l) = .ok { code, next := some l }) : Recoded p code rest o n := by
  cases rest with
  | nil => cases h
  | cons w rest =>
    cases h
    exact ⟨by simp, _, hg _, rfl, by simp [Field.trailing, Literal.cell]⟩

theorem recoded_of_field {p : Position} {code : Word} {rest : List Word} {o : Operand}
    (h : p.encode o = .ok { code }) : Recoded p code rest o 0 :=
  ⟨Nat.zero_le _, _, h, rfl, rfl⟩

theorem encode_register (p : Position) (r : Register) : p.encode (.register r) = r.field := by cases p <;> rfl

theorem encode_indirect (p : Position) (r : Register) : p.encode (.indirect r) = r.indirectField := by cases p <;> rfl

theorem encode_offset (p : Position) (r : Register) (l : Literal) : p.encode (.offset r l) = r.offsetField l := by
  cases p <;> rfl

theorem encode_memory (p : Position) (l : Literal) :
    p.encode (.memory l) = .ok { code := Word.nextIndirectCode, next := some l } := by
  cases p <;> rfl

/-- The codes of a position are below this. -/
def Position.limit : Position → Nat
  | .value => 0x40
  | .destination => 0x1f

theorem Position.lt_limit (p : Position) {n : Nat} (h : n < 0x1f) : n < p.limit := by
  cases p <;> simp only [limit] <;> omega

/-- What is below the codes of literals is a code of either position. -/
theorem fits_position {f : Field} (h : f.Fits 0x1f) (p : Position) : f.Fits p.limit := ⟨p.lt_limit h.below, h.next⟩

theorem encode_fits {p : Position} {o : Operand} {f : Field} (h : p.encode o = .ok f) : f.Fits p.limit := by
  cases o with
  | missing => cases p <;> cases h
  | register r => exact fits_position (Register.field_fits (encode_register p r ▸ h)) p
  | indirect r => exact fits_position (Register.indirectField_fits (encode_indirect p r ▸ h)) p
  | offset r l => exact fits_position (Register.offsetField_fits (encode_offset p r l ▸ h)) p
  | memory l =>
    rw [encode_memory] at h
    cases h
    exact fits_position (Field.fits_next l (by decide)) p
  | immediate l =>
    cases p with
    | value => cases h; exact l.field_fits
    | destination => cases h
  | push =>
    cases p with
    | value => cases h
    | destination => cases h; exact Field.fits_alone (by decide)
  | pop =>
    cases p with
    | value => cases h; exact Field.fits_alone (by decide)
    | destination => cases h
  | foreign r => cases p <;> cases h

/-- A code that stands for an operand by itself, one that stands for an operand with the word that follows, the code of
the next word, or none of the position. -/
theorem operand_cases (canonical : Bool) (p : Position) (code : Word) (rest : List Word) :
    (∃ o, p.encode o = .ok { code } ∧ operand canonical p code rest = some (o, 0)) ∨
    (∃ g, (∀ l, p.encode (g l) = .ok { code, next := some l }) ∧ operand canonical p code rest = withNext g rest) ∨
    (p = .value ∧ code = Word.nextLiteralCode) ∨
    (p.limit ≤ code.toNat ∧ operand canonical p code rest = none) := by
  unfold operand
  by_cases h1 : code < 0x08
  · have hcode := general_val code 0 UInt16.zero_le h1 rfl (by decide)
    rw [UInt16.zero_add] at hcode
    refine .inl ⟨_, ?_, if_pos h1⟩
    simp only [encode_register, general, Register.field, Register.code?, hcode]
  rw [if_neg h1]
  by_cases h2 : code < 0x10
  · have hcode := general_val code 0x08 (UInt16.not_lt.mp h1) h2 rfl (by decide)
    refine .inl ⟨_, ?_, if_pos h2⟩
    simp only [encode_indirect, general, Register.indirectField, Register.indirectCode?, hcode]
  rw [if_neg h2]
  by_cases h3 : code < 0x18
  · have hcode := general_val code 0x10 (UInt16.not_lt.mp h2) h3 rfl (by decide)
    refine .inr (.inl ⟨_, fun l => ?_, if_pos h3⟩)
    simp only [encode_offset, general, Register.offsetField, Register.offsetCode?, hcode]
  rw [if_neg h3]
  by_cases h4 : code = 0x18
  · rw [if_pos h4]
    subst h4
    cases p with
    | value => exact .inl ⟨.pop, rfl, rfl⟩
    | destination => exact .inl ⟨.push, rfl, rfl⟩
  rw [if_neg h4]
  by_cases h5 : code = 0x19
  · subst h5
    exact .inl ⟨_, encode_indirect p .sp, if_pos rfl⟩
  rw [if_neg h5]
  by_cases h6 : code = 0x1a
  · subst h6
    exact .inr (.inl ⟨_, encode_offset p .sp, if_pos rfl⟩)
  rw [if_neg h6]
  by_cases h7 : code = 0x1b
  · subst h7
    exact .inl ⟨_, encode_register p .sp, if_pos rfl⟩
  rw [if_neg h7]
  by_cases h8 : code = 0x1c
  · subst h8
    exact .inl ⟨_, encode_register p .pc, if_pos rfl⟩
  rw [if_neg h8]
  by_cases h9 : code = 0x1d
  · subst h9
    exact .inl ⟨_, encode_register p .ex, if_pos rfl⟩
  rw [if_neg h9]
  by_cases h10 : code = 0x1e
  · subst h10
    exact .inr (.inl ⟨_, encode_memory p, if_pos rfl⟩)
  rw [if_neg h10]
  -- only the codes from that of the next word on are left
  have hlow : 0x1f ≤ code.toNat := by
    have hne : ∀ k : Word, code ≠ k → code.toNat ≠ k.toNat := fun k hk he => hk (UInt16.toNat_inj.1 he)
    have hge : 0x18 ≤ code.toNat := UInt16.le_iff_toNat_le.1 (UInt16.not_lt.1 h3)
    have h18 : code.toNat ≠ 0x18 := hne 0x18 h4
    have h19 : code.toNat ≠ 0x19 := hne 0x19 h5
    have h1a : code.toNat ≠ 0x1a := hne 0x1a h6
    have h1b : code.toNat ≠ 0x1b := hne 0x1b h7
    have h1c : code.toNat ≠ 0x1c := hne 0x1c h8
    have h1d : code.toNat ≠ 0x1d := hne 0x1d h9
    have h1e : code.toNat ≠ 0x1e := hne 0x1e h10
    omega
  cases p with
  | destination => exact .inr (.inr (.inr ⟨hlow, rfl⟩))
  | value =>
    by_cases h11 : code = 0x1f
    · exact .inr (.inr (.inl ⟨rfl, h11⟩))
    simp only [if_neg h11]
    cases hw : Word.inlineLiteral? code with
    | some w =>
      refine .inl ⟨.immediate (.number w), ?_, rfl⟩
      simp [Position.encode, Operand.encodeValue, Literal.field, Word.inlineCode_of_inlineLiteral hw]
    | none =>
      refine .inr (.inr (.inr ⟨?_, rfl⟩))
      have h1f : code.toNat ≠ 0x1f := fun he => h11 (UInt16.toNat_inj.1 he)
      have hout : ¬ (0x20 ≤ code.toNat ∧ code.toNat ≤ 0x3f) := by
        rintro ⟨hge, hle⟩
        rw [Word.inlineLiteral?, if_pos ⟨UInt16.le_iff_toNat_le.2 hge, UInt16.le_iff_toNat_le.2 hle⟩] at hw
        cases hw
      change 0x40 ≤ code.toNat
      omega

/-- The word behind the code of the next word is an immediate; a canonical decoder does not take a small number. -/
theorem operand_nextLiteral {canonical : Bool} {p : Position} {rest : List Word} {o : Operand} {n : Nat}
    (h : operand canonical p Word.nextLiteralCode rest = some (o, n)) :
    p = .value ∧ ∃ w more, rest = w :: more ∧ o = .immediate (.number w) ∧ n = 1 ∧
      (canonical = true → w.inlineCode? = none) := by
  cases p with
  | destination => cases h
  | value =>
    cases rest with
    | nil => cases h
    | cons w more =>
      have hnext : (if canonical && w.inlineCode?.isSome then none else some (.immediate (.number w), 1)) =
          some (o, n) := h
      split at hnext
      · cases hnext
      · rename_i hsmall
        cases hnext
        refine ⟨rfl, w, more, rfl, rfl, rfl, fun hcanonical => ?_⟩
        simpa [hcanonical] using hsmall

/-- A number that is not small is encoded with the next word. -/
theorem encode_nextLiteral {w : Word} (hw : w.inlineCode? = none) :
    Position.value.encode (.immediate (.number w)) = .ok { code := Word.nextLiteralCode, next := some (.number w) } := by
  simp [Position.encode, Operand.encodeValue, Literal.field, hw]

/-- The code of the next word in front of a small number, which has a code of its own. -/
def Folds (code : Word) (rest : List Word) : Prop :=
  code = Word.nextLiteralCode ∧ ∃ w, rest.head? = some w ∧ w.inlineCode?.isSome = true

/-- What a field code decodes to encodes back to it, unless it is a number that is folded. -/
theorem operand_recoded {canonical : Bool} {p : Position} {code : Word} {rest : List Word} {o : Operand} {n : Nat}
    (hfolds : canonical = true ∨ ¬ Folds code rest) (h : operand canonical p code rest = some (o, n)) :
    Recoded p code rest o n := by
  rcases operand_cases canonical p code rest with
    ⟨o', hencode, heq⟩ | ⟨g, hencode, heq⟩ | ⟨rfl, rfl⟩ | ⟨-, heq⟩
  · rw [heq] at h
    cases h
    exact recoded_of_field hencode
  · rw [heq] at h
    exact withNext_recoded h hencode
  · obtain ⟨-, w, more, rfl, rfl, rfl, hsmall⟩ := operand_nextLiteral h
    have hw : w.inlineCode? = none := by
      rcases hfolds with hcanonical | hfolds
      · exact hsmall hcanonical
      · by_contra hne
        exact hfolds ⟨rfl, w, rfl, Option.isSome_iff_ne_none.2 hne⟩
    exact ⟨by simp, _, encode_nextLiteral hw, rfl, by simp [Field.trailing, Literal.cell]⟩
  · rw [heq] at h
    cases h

theorem operand_within {canonical : Bool} {p : Position} {code : Word} {rest : List Word} {o : Operand} {n : Nat}
    (h : operand canonical p code rest = some (o, n)) : n ≤ rest.length := by
  by_cases hcode : code = 0x1f
  · subst hcode
    obtain ⟨-, w, more, rfl, -, rfl, -⟩ := operand_nextLiteral h
    simp
  · exact (operand_recoded (.inr fun hfolds => hcode hfolds.1) h).within

end Decode

end Dcpu16
