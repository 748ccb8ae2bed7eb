/-
The texts of which lines are made, as they are written. A word is made of bytes that no trim, cut or scan
looks at; a piece may also be in brackets or a string literal, and stays whole in a line and in a list.
A number written in hexadecimal is read as that number, and an escaped text is unescaped to itself,
whatever its bytes.
-/
import Dcpu16.Proofs.Text.Scan
import Dcpu16.Instruction.Basic
import Dcpu16.Text.Scan

namespace Dcpu16

namespace Text

/-! ## Words -/

/-- Bytes of which a text is one word for every scan: ASCII, no blank, no quote mark or bracket, and
none of the marks that separate. -/
def isWordByte (b : UInt8) : Bool :=
  isSolid b && Scan.isPlain b && b != 59 && b != 44 && b != 43 && b != 45

/-- At least one byte, and none that a trim, a cut or a scan looks at. -/
structure IsWord (t : Text) : Prop where
  ne_nil : t ≠ []
  bytes : ∀ b ∈ t, isWordByte b = true

namespace IsWord

variable {t : Text}

theorem solid (h : IsWord t) : ∀ b ∈ t, isSolid b = true := by
  intro b hb
  have hw := h.bytes b hb
  simp only [isWordByte, Bool.and_eq_true] at hw
  exact hw.1.1.1.1.1

theorem plain (h : IsWord t) : ∀ b ∈ t, Scan.isPlain b = true := by
  intro b hb
  have hw := h.bytes b hb
  simp only [isWordByte, Bool.and_eq_true] at hw
  exact hw.1.1.1.1.2

theorem not_mem (h : IsWord t) {b : UInt8} (hb : isWordByte b = false) : b ∉ t := by
  intro hmem
  rw [h.bytes b hmem] at hb
  cases hb

theorem trim_eq (h : IsWord t) : trim t = t :=
  trim_eq_self (fun b hb => h.solid b (List.mem_of_head? hb)) fun b hb => h.solid b (List.mem_of_getLast? hb)

theorem cutBlank_eq (h : IsWord t) : cutBlank t = (t, []) := cutBlank_solid h.solid

end IsWord

theorem isWordByte_ascii (b : UInt8) (h : isWordByte b = true) : b < 0x80 := by
  simp only [isWordByte, isSolid, Bool.and_eq_true, decide_eq_true_eq] at h
  exact h.1.1.1.1.1.1.1

theorem isName_bytes {name : Text} (h : isName name = true) : ∀ b ∈ name, isNameByte b = true := by
  cases name with
  | nil => cases h
  | cons b t =>
    rw [isName, Bool.and_eq_true, List.all_eq_true] at h
    intro x hx
    rcases List.mem_cons.1 hx with rfl | hx
    · simp [isNameByte, h.1]
    · exact h.2 x hx

theorem isWordByte_of_isNameByte (b : UInt8) : isNameByte b = true → isWordByte b = true :=
  forall_byte (p := fun b => isNameByte b = true → isWordByte b = true) (by decide +kernel) b

theorem isName_word {name : Text} (h : isName name = true) : IsWord name where
  ne_nil := by
    rintro rfl
    cases h
  bytes b hb := isWordByte_of_isNameByte b (isName_bytes h b hb)

/-! ## Pieces of a line -/

/-- A text that a line keeps as it is: it begins and ends with solid bytes, a scan starts no comment in
it and leaves it where it was, and it holds no line feed. -/
structure Tidy (t : Text) : Prop where
  head : ∃ b ∈ t.head?, isSolid b = true
  last : ∀ b ∈ t.getLast?, isSolid b = true
  ends : Scan.run {} t = {}
  comment : Scan.Avoids Scan.commentAt {} t
  oneLine : (10 : UInt8) ∉ t

/-- A text that stays whole in a list of operands or items. -/
structure Piece (t : Text) : Prop extends Tidy t where
  comma : Scan.Avoids (Scan.separatorAt 44) {} t

namespace Tidy

variable {t u : Text}

theorem ne_nil (h : Tidy t) : t ≠ [] := by
  rintro rfl
  obtain ⟨b, hb, -⟩ := h.head
  cases hb

theorem trim_eq (h : Tidy t) : trim t = t := by
  obtain ⟨b, hb, hsolid⟩ := h.head
  refine trim_eq_self (fun x hx => ?_) h.last
  rw [Option.mem_def] at hb hx
  rw [hb] at hx
  cases hx
  exact hsolid

theorem stripComment_eq (h : Tidy t) : stripComment t = t := stripComment_eq_self h.comment

/-- Texts with a separator of plain bytes between them. -/
theorem append (ht : Tidy t) (hu : Tidy u) {sep : Text}
    (hsep : ∀ b ∈ sep, Scan.isPlain b = true ∧ b ≠ 59 ∧ b ≠ 10) : Tidy (t ++ (sep ++ u)) where
  head := by
    obtain ⟨b, hb, hsolid⟩ := ht.head
    refine ⟨b, ?_, hsolid⟩
    rw [Option.mem_def] at hb ⊢
    rw [List.head?_append, hb]
    rfl
  last := by
    have hu_last := List.getLast?_eq_some_getLast hu.ne_nil
    rw [← List.append_assoc, List.getLast?_append, hu_last]
    intro b hb
    cases hb
    exact hu.last _ hu_last
  ends := by
    rw [Scan.run_append, Scan.run_append, ht.ends, Scan.run_plain fun b hb => (hsep b hb).1, hu.ends]
  comment := by
    rw [Scan.avoids_append, Scan.avoids_append, ht.ends, Scan.run_plain fun b hb => (hsep b hb).1]
    exact ⟨ht.comment, Scan.avoids_comment (fun h => (hsep _ h).2.1 rfl) _, hu.comment⟩
  oneLine := by
    simp only [List.mem_append, not_or]
    exact ⟨ht.oneLine, fun h => (hsep _ h).2.2 rfl, hu.oneLine⟩

end Tidy

/-- A text without the marks for comments, separators and line ends is a piece if its brackets are
balanced and its ends are solid. -/
theorem Piece.of_bytes {t : Text} (head : ∃ b ∈ t.head?, isSolid b = true)
    (last : ∀ b ∈ t.getLast?, isSolid b = true) (ends : Scan.run {} t = {})
    (bytes : ∀ b ∈ t, b ≠ 59 ∧ b ≠ 44 ∧ b ≠ 10) : Piece t where
  head := head
  last := last
  ends := ends
  comment := Scan.avoids_comment (fun h => (bytes _ h).1 rfl) _
  oneLine h := (bytes _ h).2.2 rfl
  comma := Scan.avoids_separator (fun h => (bytes _ h).2.1 rfl) _

theorem isWordByte_ne (b : UInt8) (h : isWordByte b = true) : b ≠ 59 ∧ b ≠ 44 ∧ b ≠ 10 := by
  refine ⟨?_, ?_, ?_⟩ <;>
    · rintro rfl
      exact absurd h (by decide)

theorem IsWord.head_solid {t : Text} (h : IsWord t) : ∃ b ∈ t.head?, isSolid b = true := by
  obtain ⟨b, u, rfl⟩ := List.exists_cons_of_ne_nil h.ne_nil
  exact ⟨b, rfl, h.solid b List.mem_cons_self⟩

theorem IsWord.last_solid {t : Text} (h : IsWord t) : ∃ b ∈ t.getLast?, isSolid b = true :=
  ⟨t.getLast h.ne_nil, List.getLast?_eq_some_getLast h.ne_nil, h.solid _ (List.getLast_mem _)⟩

theorem IsWord.piece {t : Text} (h : IsWord t) : Piece t :=
  .of_bytes h.head_solid (fun b hb => h.solid b (List.mem_of_getLast? hb)) (Scan.run_plain h.plain 0)
    fun b hb => isWordByte_ne b (h.bytes b hb)

/-- A line feed, a carriage return, a tab and a null are written as a backslash and one more byte. -/
theorem not_mem_escape {x : UInt8} (hx : x ∈ ([10, 13, 9, 0] : Text)) (t : Text) : x ∉ escape t := by
  have hbyte : ∀ b, (escapeByte b).all (fun x => !([10, 13, 9, 0] : Text).contains x) = true :=
    forall_byte (p := fun b => (escapeByte b).all (fun x => !([10, 13, 9, 0] : Text).contains x) = true)
      (by decide +kernel)
  simp only [escape, List.mem_flatMap, not_exists, not_and]
  intro b _ hmem
  have hnot := List.all_eq_true.1 (hbyte b) x hmem
  rw [List.contains_iff_mem.2 hx] at hnot
  cases hnot

theorem not_mem_literal {x : UInt8} (hx : x ∈ ([10, 13, 9, 0] : Text)) (t : Text) : x ∉ Text.literal t := by
  have hne : x ≠ 34 := by
    rintro rfl
    exact absurd hx (by decide)
  simp only [Text.literal, List.mem_cons, List.mem_append, List.not_mem_nil, or_false, not_or]
  exact ⟨hne, not_mem_escape hx t, hne⟩

theorem Piece.literal (t : Text) : Piece (Text.literal t) where
  head := ⟨34, rfl, rfl⟩
  last := by
    intro b hb
    rw [Text.literal, ← List.cons_append, List.getLast?_concat] at hb
    cases hb
    rfl
  ends := Scan.run_literal 0 t
  comment := (Scan.passes_literal rfl t).2.1
  comma := (Scan.passes_literal rfl t).2.2 44
  oneLine := not_mem_literal (by decide) t

theorem Piece.part {t : Text} (h : Piece t) : Part 44 t := ⟨h.ends, h.comma⟩

/-! ## Upper case -/

theorem upperOnto_append (acc rest : Text) (t : Text) : upperOnto (acc ++ rest) t = upperOnto acc t ++ rest := by
  fun_induction upperOnto acc t with
  | case1 acc t ih => exact ih
  | case2 acc t ih => exact ih
  | case3 acc b t h1 h2 ih => rw [upperOnto]; exacts [ih, h1, h2]
  | case4 acc => rfl

theorem upper_cons {b : UInt8} (hb : b < 0x80) (t : Text) : upper (b :: t) = upperByte b :: upper t := by
  have h1 : b ≠ 0xC4 := by rintro rfl; exact absurd hb (by decide)
  have h2 : b ≠ 0xC5 := by rintro rfl; exact absurd hb (by decide)
  have hstep : upperOnto [] (b :: t) = upperOnto [upperByte b] t := by
    rw [upperOnto]
    · intro _ he; exact absurd he h1
    · intro _ he; exact absurd he h2
  rw [upper, hstep, ← List.nil_append [upperByte b], upperOnto_append, List.reverse_append]
  rfl

theorem upper_ascii {t : Text} (h : ∀ b ∈ t, b < 0x80) : upper t = t.map upperByte := by
  induction t with
  | nil => rfl
  | cons b t ih =>
    rw [upper_cons (h b List.mem_cons_self), ih fun x hx => h x (List.mem_cons_of_mem _ hx), List.map_cons]

theorem upperByte_eq (b : UInt8) : upperByte b = b ∨ (65 ≤ upperByte b ∧ upperByte b ≤ 90) :=
  forall_byte (p := fun b => upperByte b = b ∨ (65 ≤ upperByte b ∧ upperByte b ≤ 90)) (by decide +kernel) b

theorem upperByte_of_not_lower (b : UInt8) (h : ¬ (97 ≤ b ∧ b ≤ 122)) : upperByte b = b := if_neg h

/-- A byte that is no letter is in the upper case of a text if it is in the text. -/
theorem mem_upper {t : Text} (h : ∀ b ∈ t, b < 0x80) {x : UInt8} (hx : ¬ (65 ≤ x ∧ x ≤ 90) ∧ ¬ (97 ≤ x ∧ x ≤ 122)) :
    x ∈ upper t ↔ x ∈ t := by
  rw [upper_ascii h, List.mem_map]
  constructor
  · rintro ⟨b, hb, rfl⟩
    rcases upperByte_eq b with he | hletter
    · rwa [he]
    · exact absurd hletter hx.1
  · exact fun hmem => ⟨x, hmem, upperByte_of_not_lower x hx.2⟩

/-! ## Marks -/

theorem between?_eq_none {x : UInt8} {opening closing t : Text} (h : t.head? ≠ some x) :
    between? (x :: opening) closing t = none := by
  rw [between?, if_neg]
  rintro ⟨-, hpre, -⟩
  obtain ⟨rest, rfl⟩ := List.isPrefixOf_iff_prefix.1 hpre
  exact h rfl

theorem between?_marks (opening inner closing : Text) :
    between? opening closing (opening ++ (inner ++ closing)) = some inner := by
  rw [between?, if_pos]
  · rw [List.drop_left, List.length_append, List.length_append,
      show opening.length + (inner.length + closing.length) - opening.length - closing.length = inner.length by omega,
      List.take_left]
  · refine ⟨by simp only [List.length_append]; omega, List.isPrefixOf_iff_prefix.2 (List.prefix_append _ _), ?_⟩
    rw [← List.append_assoc]
    exact List.isSuffixOf_iff_suffix.2 (List.suffix_append _ _)

/-- What is between two marks makes up the text with them. -/
theorem eq_of_between? {opening closing inner t : Text} (h : between? opening closing t = some inner) :
    t = opening ++ (inner ++ closing) := by
  have hmarks : opening.length + closing.length ≤ t.length ∧ opening.isPrefixOf t ∧ closing.isSuffixOf t := by
    by_contra hnot
    rw [between?, if_neg hnot] at h
    cases h
  obtain ⟨hlength, hopening, hclosing⟩ := hmarks
  obtain ⟨rest, rfl⟩ := List.isPrefixOf_iff_prefix.1 hopening
  rw [List.length_append] at hlength
  obtain ⟨middle, rfl⟩ := List.suffix_of_suffix_length_le (List.isSuffixOf_iff_suffix.1 hclosing)
    (List.suffix_append opening rest) (by omega)
  rw [between?_marks] at h
  cases h
  rfl

theorem cutAt?_go_eq_none {b : UInt8} {t : Text} (h : b ∉ t) (before : Text) : cutAt?.go b before t = none := by
  induction t generalizing before with
  | nil => rfl
  | cons x t ih =>
    rw [List.mem_cons, not_or] at h
    rw [cutAt?.go, if_neg (Ne.symm h.1), ih h.2]

theorem cutAt?_eq_none {b : UInt8} {t : Text} (h : b ∉ t) : cutAt? b t = none := cutAt?_go_eq_none h []

/-- A text is cut at the first mark. -/
theorem cutAt?_append {b : UInt8} {t : Text} (h : b ∉ t) (rest : Text) : cutAt? b (t ++ b :: rest) = some (t, rest) := by
  have hgo : ∀ before, cutAt?.go b before (t ++ b :: rest) = some (before.reverse ++ t, rest) := by
    induction t with
    | nil => exact fun before => by rw [List.nil_append, cutAt?.go, if_pos rfl, List.append_nil]
    | cons x t ih =>
      intro before
      rw [List.mem_cons, not_or] at h
      rw [List.cons_append, cutAt?.go, if_neg (Ne.symm h.1), ih h.2, List.reverse_cons, List.append_assoc]
      rfl
  exact hgo []

/-- A text has a mark and is cut at the first one, or it has none. -/
theorem cutAt?_cases (b : UInt8) (t : Text) :
    (b ∉ t ∧ cutAt? b t = none) ∨
      ∃ before after, t = before ++ b :: after ∧ b ∉ before ∧ cutAt? b t = some (before, after) := by
  by_cases hb : b ∈ t
  · obtain ⟨before, after, rfl, hbefore⟩ := List.eq_append_cons_of_mem hb
    exact .inr ⟨before, after, rfl, hbefore, cutAt?_append hbefore after⟩
  · exact .inl ⟨hb, cutAt?_eq_none hb⟩

/-! ## Escapes -/

theorem unescapeOnto_escapeByte (acc rest : Text) (b : UInt8) :
    unescapeOnto acc (escapeByte b ++ rest) = unescapeOnto (b :: acc) rest := by
  unfold escapeByte
  split_ifs with h1 h2 h3 h4 h5 h6
  · subst h1; rfl
  · subst h2; rfl
  · subst h3; rfl
  · subst h4; rfl
  · subst h5; rfl
  · subst h6; rfl
  · have hb : b ≠ 92 := h1
    rw [List.singleton_append, unescapeOnto]
    · exact fun he => absurd he hb
    · exact fun _ _ he => absurd he hb

theorem unescapeOnto_escape (acc t : Text) : unescapeOnto acc (escape t) = some (t.reverse ++ acc) := by
  induction t generalizing acc with
  | nil => rfl
  | cons b t ih =>
    rw [show escape (b :: t) = escapeByte b ++ escape t from List.flatMap_cons, unescapeOnto_escapeByte, ih]
    simp

theorem unescape_escape (t : Text) : unescape (escape t) = some t := by
  rw [unescape, unescapeOnto_escape]
  simp

end Text

/-! ## Words in hexadecimal -/

namespace Numeral

theorem digitValue_digit : ∀ d < 16, digitValue? (digit d) = some d := by decide

theorem digit_ne_underscore : ∀ d < 16, digit d ≠ Text.byte '_' := by decide

theorem digit_word : ∀ d < 16, Text.isWordByte (digit d) = true := by decide

theorem readDigits_digit (n d : Nat) (h : d < 16) (whole : Bool) (t : Text) :
    readDigits 16 whole n (digit d :: t) = readDigits 16 true (n * 16 + d) t := by
  rw [readDigits, if_neg (digit_ne_underscore d h), digitValue_digit d h]
  simp [h]

/-- A magnitude that starts with a zero, and so with no sign, is read as it is. -/
theorem read_unsigned {t : Text} {n : Nat} (h : readMagnitude (48 :: t) = some n) (hn : n < 0x80000000) :
    read (48 :: t) = some (n : Int) := by
  have hread : read (48 :: t) = ((readMagnitude (48 :: t)).bind fun n => some (n : Int)).filter
      fun n => -0x80000000 ≤ n ∧ n < 0x80000000 := rfl
  rw [hread, h, Option.bind_some, Option.filter_some, if_pos]
  rw [decide_eq_true_eq]
  omega

end Numeral

namespace Word

theorem render_eq (w : Word) : w.render = 48 :: 120 :: Numeral.hexWord w := rfl

theorem render_head (w : Word) : w.render.head? = some 48 := rfl

theorem render_word (w : Word) : Text.IsWord w.render := by
  have hw := w.toNat_lt
  refine ⟨by simp [render_eq], ?_⟩
  rw [render_eq, Numeral.hexWord]
  simp only [List.mem_cons, List.not_mem_nil, or_false]
  rintro b (rfl | rfl | rfl | rfl | rfl | rfl)
  · rfl
  · rfl
  · exact Numeral.digit_word _ (by omega)
  · exact Numeral.digit_word _ (by omega)
  · exact Numeral.digit_word _ (by omega)
  · exact Numeral.digit_word _ (by omega)

theorem readMagnitude_render (w : Word) : Numeral.readMagnitude w.render = some w.toNat := by
  have hw := w.toNat_lt
  rw [render_eq, Numeral.hexWord, Numeral.readMagnitude, show Numeral.baseOf? 120 = some 16 from rfl]
  simp only
  rw [Numeral.readDigits_digit _ _ (by omega), Numeral.readDigits_digit _ _ (by omega),
    Numeral.readDigits_digit _ _ (by omega), Numeral.readDigits_digit _ _ (by omega), Numeral.readDigits, if_pos rfl]
  congr 1
  omega

theorem read_render (w : Word) : Numeral.read w.render = some (w.toNat : Int) :=
  Numeral.read_unsigned w.readMagnitude_render (by have := w.toNat_lt; omega)

theorem ofInt_toNat (w : Word) : ofInt? w.toNat = some w := by
  have hw := w.toNat_lt
  have hmod : ((w.toNat : Int) % 2 ^ 16).toNat = w.toNat := by omega
  rw [ofInt?, if_pos (by omega), UInt16.ofInt, hmod, UInt16.ofNat_toNat]

end Word

end Dcpu16
