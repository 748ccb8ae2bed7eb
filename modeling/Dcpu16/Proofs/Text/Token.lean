/-
Tokens and letter case. A token has no white space and no byte that a scan looks at, but need not be ASCII: two
letters that are not have an upper case that is, and a text whose upper case is a word is a token all the same. Upper
case goes through a text piece by piece and neither makes nor removes a mark.
-/
import Dcpu16.Proofs.Text.Run
import Dcpu16.Proofs.Text.Written

namespace Dcpu16.Text

/-! ## Upper case piece by piece -/

theorem upper_dotless (t : Text) : upper (0xC4 :: 0xB1 :: t) = 73 :: upper t := by
  rw [upper, upperOnto, ← List.nil_append [byte 'I'], upperOnto_append, List.reverse_append]
  rfl

theorem upper_long (t : Text) : upper (0xC5 :: 0xBF :: t) = 83 :: upper t := by
  rw [upper, upperOnto, ← List.nil_append [byte 'S'], upperOnto_append, List.reverse_append]
  rfl

/-- A byte that does not start one of the two letters is mapped by itself. -/
theorem upper_single {b : UInt8} {t : Text} (hdotless : b = 0xC4 → t.head? ≠ some 0xB1)
    (hlong : b = 0xC5 → t.head? ≠ some 0xBF) : upper (b :: t) = upperByte b :: upper t := by
  have hstep : upperOnto [] (b :: t) = upperOnto [upperByte b] t := by
    rw [upperOnto]
    · rintro u rfl rfl
      exact hdotless rfl rfl
    · rintro u rfl rfl
      exact hlong rfl rfl
  rw [upper, hstep, ← List.nil_append [upperByte b], upperOnto_append, List.reverse_append]
  rfl

/-- The two letters that are not ASCII, and all other bytes. -/
theorem upper_cases (b : UInt8) (t : Text) :
    (∃ u, b = 0xC4 ∧ t = 0xB1 :: u ∧ upper (b :: t) = 73 :: upper u) ∨
    (∃ u, b = 0xC5 ∧ t = 0xBF :: u ∧ upper (b :: t) = 83 :: upper u) ∨
    ((b = 0xC4 → t.head? ≠ some 0xB1) ∧ (b = 0xC5 → t.head? ≠ some 0xBF) ∧ upper (b :: t) = upperByte b :: upper t) := by
  by_cases hdotless : b = 0xC4 ∧ t.head? = some 0xB1
  · obtain ⟨rfl, hhead⟩ := hdotless
    obtain ⟨u, rfl⟩ := List.head?_eq_some_iff.1 hhead
    exact .inl ⟨u, rfl, rfl, upper_dotless u⟩
  · by_cases hlong : b = 0xC5 ∧ t.head? = some 0xBF
    · obtain ⟨rfl, hhead⟩ := hlong
      obtain ⟨u, rfl⟩ := List.head?_eq_some_iff.1 hhead
      exact .inr (.inl ⟨u, rfl, rfl, upper_long u⟩)
    · rw [not_and] at hdotless hlong
      exact .inr (.inr ⟨hdotless, hlong, upper_single hdotless hlong⟩)

theorem upper_append : ∀ (t : Text) {u : Text}, (∀ b ∈ u.head?, b ≠ 0xB1 ∧ b ≠ 0xBF) →
    upper (t ++ u) = upper t ++ upper u
  | [], _, _ => rfl
  | b :: t, u, hu => by
    rcases upper_cases b t with ⟨v, rfl, rfl, heq⟩ | ⟨v, rfl, rfl, heq⟩ | ⟨hdotless, hlong, heq⟩
    · rw [heq, List.cons_append, List.cons_append, upper_dotless, upper_append v hu]
      rfl
    · rw [heq, List.cons_append, List.cons_append, upper_long, upper_append v hu]
      rfl
    · -- if the text ends here, what follows does not go on with a letter
      have hhead : ∀ x ∈ (t ++ u).head?, x ∈ t.head? ∨ x ≠ 0xB1 ∧ x ≠ 0xBF := by
        cases t with
        | nil => exact fun x hx => .inr (hu x hx)
        | cons c t => exact fun x hx => .inl hx
      rw [heq, List.cons_append, upper_single, upper_append t hu]
      · rfl
      · intro hb hx
        rcases hhead _ hx with hx | hx
        · exact hdotless hb hx
        · exact hx.1 rfl
      · intro hb hx
        rcases hhead _ hx with hx | hx
        · exact hlong hb hx
        · exact hx.2 rfl

/-- A mark at the front of the upper case is at the front of the text. -/
theorem head_of_upper {t : Text} {x : UInt8} (hx : ¬ (65 ≤ x ∧ x ≤ 90)) (h : (upper t).head? = some x) :
    t.head? = some x := by
  cases t with
  | nil => cases h
  | cons b t =>
    rcases upper_cases b t with ⟨u, -, -, heq⟩ | ⟨u, -, -, heq⟩ | ⟨-, -, heq⟩
    · rw [heq] at h
      cases h
      exact absurd (by decide) hx
    · rw [heq] at h
      cases h
      exact absurd (by decide) hx
    · rw [heq] at h
      cases h
      rcases upperByte_eq b with he | hletter
      · exact congrArg some he.symm
      · exact absurd hletter hx

theorem upper_ne_nil (b : UInt8) (t : Text) : upper (b :: t) ≠ [] := by
  rcases upper_cases b t with ⟨u, -, -, heq⟩ | ⟨u, -, -, heq⟩ | ⟨-, -, heq⟩ <;> simp [heq]

/-- A mark at the end of the upper case is at the end of the text. -/
theorem last_of_upper : ∀ {t : Text} {x : UInt8}, ¬ (65 ≤ x ∧ x ≤ 90) → (upper t).getLast? = some x →
    t.getLast? = some x
  | [], _, _, h => by cases h
  | b :: t, x, hx, h => by
    -- the last byte of what is left, unless the upper case is the one letter
    have hrest : ∀ (y : UInt8) (u : Text), u.length < (b :: t).length → (y :: upper u).getLast? = some x →
        (u = [] ∧ x = y) ∨ u.getLast? = some x := by
      intro y u hlt hu
      by_cases hne : u = []
      · subst hne
        exact .inl ⟨rfl, (Option.some.inj hu).symm⟩
      · obtain ⟨c, v, heq⟩ := List.exists_cons_of_ne_nil hne
        rw [List.getLast?_cons_of_ne_nil (heq ▸ upper_ne_nil c v)] at hu
        exact .inr (last_of_upper hx hu)
    rcases upper_cases b t with ⟨u, rfl, rfl, heq⟩ | ⟨u, rfl, rfl, heq⟩ | ⟨-, -, heq⟩
    · rw [heq] at h
      rcases hrest 73 u (by rw [List.length_cons, List.length_cons]; omega) h with ⟨-, rfl⟩ | hlast
      · exact absurd (by decide) hx
      · rw [List.getLast?_cons, List.getLast?_cons, hlast]
        rfl
    · rw [heq] at h
      rcases hrest 83 u (by rw [List.length_cons, List.length_cons]; omega) h with ⟨-, rfl⟩ | hlast
      · exact absurd (by decide) hx
      · rw [List.getLast?_cons, List.getLast?_cons, hlast]
        rfl
    · rw [heq] at h
      rcases hrest (upperByte b) t (by simp) h with ⟨rfl, rfl⟩ | hlast
      · rcases upperByte_eq b with he | hletter
        · rw [he]
          rfl
        · exact absurd hletter hx
      · rw [List.getLast?_cons, hlast]
        rfl
termination_by t => t.length
decreasing_by exact hlt

/-- The bytes of the two letters that are not ASCII. -/
def letterBytes : Text := [0xC4, 0xB1, 0xC5, 0xBF]

theorem mem_of_upper : ∀ {t : Text}, ∀ b ∈ t, upperByte b ∈ upper t ∨ b ∈ letterBytes
  | c :: t, b, hb => by
    rcases upper_cases c t with ⟨u, rfl, rfl, heq⟩ | ⟨u, rfl, rfl, heq⟩ | ⟨-, -, heq⟩
    · rcases List.mem_cons.1 hb with rfl | hb
      · exact .inr (by decide)
      rcases List.mem_cons.1 hb with rfl | hb
      · exact .inr (by decide)
      · exact (mem_of_upper b hb).imp_left fun h => by simp [heq, h]
    · rcases List.mem_cons.1 hb with rfl | hb
      · exact .inr (by decide)
      rcases List.mem_cons.1 hb with rfl | hb
      · exact .inr (by decide)
      · exact (mem_of_upper b hb).imp_left fun h => by simp [heq, h]
    · rcases List.mem_cons.1 hb with rfl | hb
      · exact .inl (by simp [heq])
      · exact (mem_of_upper b hb).imp_left fun h => by simp [heq, h]
termination_by t => t.length

/-! ## Tokens -/

/-- At least one byte, no white space, and no byte that a scan looks at. -/
structure IsToken (t : Text) : Prop where
  ne_nil : t ≠ []
  unbroken : Unbroken t
  quiet : ∀ b ∈ t, isQuiet b = true

theorem isQuiet_of_isWordByte (b : UInt8) : isWordByte b = true → isQuiet b = true :=
  forall_byte (p := fun b => isWordByte b = true → isQuiet b = true) (by decide +kernel) b

theorem IsWord.token {t : Text} (h : IsWord t) : IsToken t :=
  ⟨h.ne_nil, unbroken_of_solid h.solid, fun b hb => isQuiet_of_isWordByte b (h.bytes b hb)⟩

/-- A text is a token if its upper case is a word. -/
theorem token_of_upper {t : Text} (h : IsWord (upper t)) : IsToken t := by
  have hbytes : ∀ b ∈ t, isWordByte b = true ∨ b ∈ letterBytes := by
    have hall : ∀ b, isWordByte (upperByte b) = true → isWordByte b = true :=
      forall_byte (p := fun b => isWordByte (upperByte b) = true → isWordByte b = true) (by decide +kernel)
    exact fun b hb => (mem_of_upper b hb).imp_left fun hmem => hall b (h.bytes _ hmem)
  have hforms : ∀ f ∈ blankForms, ∀ b ∈ f.head?, b ∉ letterBytes := by decide +kernel
  refine ⟨?_, fun s hne hs => ?_, fun b hb => ?_⟩
  · rintro rfl
    exact h.ne_nil rfl
  · -- no white space character starts with a byte of the text
    obtain ⟨b, s', rfl⟩ := List.exists_cons_of_ne_nil hne
    rcases hbytes b (hs.subset List.mem_cons_self) with hb | hb
    · simp only [isWordByte, Bool.and_eq_true] at hb
      exact formLength_solid blankForms_heads hb.1.1.1.1.1 s'
    · rw [formLength_eq_zero blankForms_heads]
      rintro f hf ⟨rest, hrest⟩
      obtain ⟨x, f', rfl⟩ := List.exists_cons_of_ne_nil (ne_nil_of_headsNotSolid blankForms_heads hf)
      cases hrest
      exact hforms _ hf _ rfl hb
  · rcases hbytes b hb with hb | hb
    · exact isQuiet_of_isWordByte b hb
    · have hall : letterBytes.all isQuiet = true := by decide
      exact List.all_eq_true.1 hall b hb

/-- A keyword is a token in any letter case. -/
theorem token_of_keyword {t s : Text} (hs : isName s = true) (h : upper t = s) : IsToken t :=
  token_of_upper (h ▸ isName_word hs)

namespace IsToken

variable {t x y : Text}

theorem trim_eq (h : IsToken t) (hx : IsBlank x) (hy : IsBlank y) : trim (x ++ (t ++ y)) = t := by
  rw [trim_blank hx hy, h.unbroken.trim_eq]

theorem quiet_around (h : IsToken t) (hx : IsBlank x) (hy : IsBlank y) : ∀ b ∈ x ++ (t ++ y), isQuiet b = true :=
  quiet_append hx.quiet (quiet_append h.quiet hy.quiet)

end IsToken

/-! ## The same letters -/

/-- The same bytes but for the case of letters. -/
def SameLetters (t u : Text) : Prop := t.map upperByte = u.map upperByte

instance (t u : Text) : Decidable (SameLetters t u) := inferInstanceAs (Decidable (t.map upperByte = u.map upperByte))

namespace SameLetters

variable {t u : Text}

theorem refl (t : Text) : SameLetters t t := rfl

theorem word (h : SameLetters t u) (hu : IsWord u) : IsWord t := by
  have hbyte : ∀ b, isWordByte b = isWordByte (upperByte b) :=
    forall_byte (p := fun b => isWordByte b = isWordByte (upperByte b)) (by decide +kernel)
  refine ⟨?_, fun b hb => ?_⟩
  · rintro rfl
    exact hu.ne_nil (List.map_eq_nil_iff.1 h.symm)
  · have hmem : upperByte b ∈ u.map upperByte := h ▸ List.mem_map_of_mem hb
    obtain ⟨c, hc, heq⟩ := List.mem_map.1 hmem
    rw [hbyte, ← heq, ← hbyte]
    exact hu.bytes c hc

theorem upper_eq (h : SameLetters t u) (hu : IsWord u) : upper t = upper u := by
  rw [upper_ascii fun b hb => isWordByte_ascii b ((h.word hu).bytes b hb),
    upper_ascii fun b hb => isWordByte_ascii b (hu.bytes b hb), h]

end SameLetters

/-! ## Marks around tokens -/

/-- Brackets around bytes that are no brackets, quote marks or commas stay whole in a list. -/
theorem part_brackets {inner : Text} (h : ∀ b ∈ inner, Scan.isPlain b = true ∧ b ≠ 44) :
    Part 44 (91 :: (inner ++ [93])) := by
  refine ⟨Scan.run_brackets fun b hb => (h b hb).1, Scan.avoids_separator ?_ _⟩
  simp only [List.mem_cons, List.mem_append, List.not_mem_nil, or_false, not_or]
  exact ⟨by decide, fun hmem => (h 44 hmem).2 rfl, by decide⟩

end Dcpu16.Text
