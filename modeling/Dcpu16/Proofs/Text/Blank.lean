/-
Trimming and cutting at white space. A byte that is ASCII and no blank neither begins nor ends a white
space character, so a text that starts and ends with such bytes is not trimmed, and a word of them is
cut off whole. Trimming a trimmed text changes nothing.
-/
import Mathlib.Tactic.Common
import Dcpu16.Text.Scan

namespace Dcpu16.Text

/-- A property of bytes holds if it does for the 256 of them. -/
theorem forall_byte {p : UInt8 → Prop} (h : ∀ n < 256, p (UInt8.ofNat n)) (b : UInt8) : p b := by
  have hb := h b.toNat b.toNat_lt
  rwa [UInt8.ofNat_toNat] at hb

/-- An ASCII byte that is no blank. -/
def isSolid (b : UInt8) : Bool := b < 0x80 && b != 32 && (b < 9 || 13 < b)

/-! ## Forms at the front of a text -/

/-- Forms that start with a byte which is not solid. -/
def headsNotSolid (forms : List Text) : Bool := forms.all fun f => f.head?.any fun b => !isSolid b

theorem blankForms_heads : headsNotSolid blankForms = true := by decide

theorem blankFormsReversed_heads : headsNotSolid blankFormsReversed = true := by decide

/-- No form at the front. -/
theorem formLength_eq_zero {forms : List Text} (hf : headsNotSolid forms = true) (t : Text) :
    formLength forms t = 0 ↔ ∀ f ∈ forms, ¬ f <+: t := by
  unfold formLength
  cases h : forms.find? (·.isPrefixOf t) with
  | none =>
    simp only [true_iff]
    intro f hmem hpre
    exact List.find?_eq_none.1 h f hmem (List.isPrefixOf_iff_prefix.2 hpre)
  | some f =>
    have hmem := List.mem_of_find?_eq_some h
    have hpre : f.isPrefixOf t = true := by simpa using List.find?_some h
    have hhead := List.all_eq_true.1 hf f hmem
    constructor
    · intro hlen
      rw [List.length_eq_zero_iff.1 hlen] at hhead
      simp at hhead
    · intro hall
      exact absurd (List.isPrefixOf_iff_prefix.1 hpre) (hall f hmem)

theorem formLength_solid {forms : List Text} (hf : headsNotSolid forms = true) {b : UInt8} (hb : isSolid b = true)
    (t : Text) : formLength forms (b :: t) = 0 := by
  rw [formLength_eq_zero hf]
  intro f hmem hpre
  have hhead := List.all_eq_true.1 hf f hmem
  cases f with
  | nil => simp at hhead
  | cons x f => simp [(List.cons_prefix_cons.1 hpre).1, hb] at hhead

theorem formLength_front {forms : List Text} (hf : headsNotSolid forms = true) {p t : Text} (hp : p <+: t)
    (h : formLength forms t = 0) : formLength forms p = 0 := by
  rw [formLength_eq_zero hf] at *
  exact fun f hmem hpre => h f hmem (hpre.trans hp)

theorem dropForms_solid {forms : List Text} (hf : headsNotSolid forms = true) {t : Text}
    (ht : ∀ b ∈ t.head?, isSolid b = true) : dropForms forms 0 t = t := by
  cases t with
  | nil => rfl
  | cons b t => rw [dropForms, formLength_solid hf (ht b rfl)]

/-! ## Trimming -/

theorem trim_eq_self {t : Text} (h : ∀ b ∈ t.head?, isSolid b = true) (h' : ∀ b ∈ t.getLast?, isSolid b = true) :
    trim t = t := by
  unfold trim trimLeft trimRight
  rw [dropForms_solid blankForms_heads h, dropForms_solid blankFormsReversed_heads, List.reverse_reverse]
  rwa [List.head?_reverse]

/-- What is left after dropping starts with no form. -/
theorem formLength_dropForms (forms : List Text) :
    ∀ (t : Text) (n : Nat), dropForms forms n t = [] ∨ formLength forms (dropForms forms n t) = 0
  | [], n => by cases n <;> exact .inl rfl
  | _ :: t, n + 1 => formLength_dropForms forms t n
  | b :: t, 0 => by
    rw [dropForms]
    split
    · rename_i h
      exact .inr h
    · exact formLength_dropForms forms t _

theorem dropForms_of_formLength {forms : List Text} {t : Text} (h : t = [] ∨ formLength forms t = 0) :
    dropForms forms 0 t = t := by
  cases t with
  | nil => rfl
  | cons b t => rw [dropForms, h.resolve_left (by simp)]

theorem dropForms_suffix (forms : List Text) : ∀ (t : Text) (n : Nat), dropForms forms n t <:+ t
  | [], n => by cases n <;> exact List.suffix_refl []
  | b :: t, n + 1 => (dropForms_suffix forms t n).trans (List.suffix_cons b t)
  | b :: t, 0 => by
    rw [dropForms]
    split
    · exact List.suffix_refl _
    · exact (dropForms_suffix forms t _).trans (List.suffix_cons b t)

theorem trimRight_front (t : Text) : trimRight t <+: t := by
  have h := dropForms_suffix blankFormsReversed t.reverse 0
  rw [← List.reverse_prefix, List.reverse_reverse] at h
  exact h

/-- What trimming leaves as it is has no white space at its front. -/
theorem trimLeft_of_trim {t : Text} (h : trim t = t) : trimLeft t = t := by
  have hleft : (trimLeft t).length ≤ t.length := (dropForms_suffix blankForms t 0).length_le
  have hright : (trim t).length ≤ (trimLeft t).length := (trimRight_front (trimLeft t)).length_le
  have hlength := congrArg List.length h
  exact (dropForms_suffix blankForms t 0).eq_of_length (by show (trimLeft t).length = _; omega)

theorem trim_trim (t : Text) : trim (trim t) = trim t := by
  have hleft : trimLeft (trim t) = trim t := by
    apply dropForms_of_formLength
    rcases formLength_dropForms blankForms t 0 with h | h
    · left
      rw [trim, trimLeft, h]
      rfl
    · exact .inr (formLength_front blankForms_heads (trimRight_front _) h)
  have hright : trimRight (trim t) = trim t := by
    have h := formLength_dropForms blankFormsReversed (trimLeft t).reverse 0
    unfold trim trimRight
    rw [List.reverse_reverse, dropForms_of_formLength h]
  rw [show trim (trim t) = trimRight (trimLeft (trim t)) from rfl, hleft, hright]

/-! ## Cutting off a word -/

theorem cutBlank_go_solid {word : Text} (h : ∀ b ∈ word, isSolid b = true) (acc rest : Text) :
    cutBlank.go acc (word ++ rest) = cutBlank.go (word.reverse ++ acc) rest := by
  induction word generalizing acc with
  | nil => rfl
  | cons b word ih =>
    rw [List.cons_append, cutBlank.go, if_pos (formLength_solid blankForms_heads (h b List.mem_cons_self) _),
      ih (fun x hx => h x (List.mem_cons_of_mem _ hx)), List.reverse_cons, List.append_assoc]
    rfl

theorem cutBlank_solid {word : Text} (h : ∀ b ∈ word, isSolid b = true) : cutBlank word = (word, []) := by
  have hgo := cutBlank_go_solid h [] []
  rw [List.append_nil] at hgo
  rw [cutBlank, hgo]
  simp [cutBlank.go]

theorem cutBlank_append (t : Text) : (cutBlank t).1 ++ (cutBlank t).2 = t := by
  have hgo : ∀ acc : Text, (cutBlank.go acc t).1 ++ (cutBlank.go acc t).2 = acc.reverse ++ t := by
    induction t with
    | nil => simp [cutBlank.go]
    | cons b t ih =>
      intro acc
      rw [cutBlank.go]
      split
      · rw [ih, List.reverse_cons, List.append_assoc]
        rfl
      · rfl
  exact hgo []

theorem cutBlank_go_front (acc t : Text) : ∃ more, (cutBlank.go acc t).1 = acc.reverse ++ more := by
  induction t generalizing acc with
  | nil => exact ⟨[], by simp [cutBlank.go]⟩
  | cons b t ih =>
    rw [cutBlank.go]
    split
    · obtain ⟨more, h⟩ := ih (b :: acc)
      exact ⟨b :: more, by simp [h]⟩
    · exact ⟨[], by simp⟩

/-- The first word of a text that starts with a solid byte starts with it. -/
theorem cutBlank_head {b : UInt8} (hb : isSolid b = true) (t : Text) : ∃ word, (cutBlank (b :: t)).1 = b :: word := by
  rw [cutBlank, cutBlank.go, if_pos (formLength_solid blankForms_heads hb t)]
  exact cutBlank_go_front [b] t

end Dcpu16.Text
