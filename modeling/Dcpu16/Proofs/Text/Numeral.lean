/-
Numerals as texts. What can be read as a number starts with a digit or a sign and is made of letters, digits and
underscores, so that it is one word to every scan and nobody's name. Two spellings of a number are told apart by nothing
but their bytes.
-/
import Dcpu16.Proofs.Text.Token

namespace Dcpu16.Numeral

/-! ## Digits that are written -/

theorem readDigits_digitsOnto (fuel n : Nat) (h : n < fuel) (whole : Bool) (acc : Text) :
    readDigits 16 whole 0 (digitsOnto 16 fuel n acc) = readDigits 16 true n acc := by
  induction fuel generalizing n acc with
  | zero => omega
  | succ fuel ih =>
    rw [digitsOnto]
    split_ifs with hn
    · rw [readDigits_digit _ _ hn]
      congr 1
      omega
    · rw [ih (n / 16) (by omega), readDigits_digit _ _ (Nat.mod_lt _ (by decide))]
      congr 1
      omega

theorem digitsOnto_ne_nil (base fuel n : Nat) {acc : Text} (h : acc ≠ [] ∨ 0 < fuel) :
    digitsOnto base fuel n acc ≠ [] := by
  induction fuel generalizing n acc with
  | zero => exact h.resolve_right (by omega)
  | succ fuel ih =>
    rw [digitsOnto]
    split_ifs
    · simp
    · exact ih _ (.inl (by simp))

/-! ## Bytes of what is read -/

/-- A letter, a digit or an underscore. -/
def isNumeralByte (b : UInt8) : Bool := (digitValue? b).isSome || b == 95

/-- What a numeral starts with: a digit or a sign. -/
def startsNumeral (b : UInt8) : Bool := (48 ≤ b && b ≤ 57) || b == 43 || b == 45

theorem startsNumeral_lt (b : UInt8) : startsNumeral b = true → b < 65 :=
  Text.forall_byte (p := fun b => startsNumeral b = true → b < 65) (by decide +kernel) b

theorem readDigits_bytes {base : Nat} {t : Text} {whole : Bool} {n m : Nat} (h : readDigits base whole n t = some m) :
    ∀ b ∈ t, isNumeralByte b = true := by
  induction t generalizing whole n with
  | nil => simp
  | cons b t ih =>
    rw [readDigits] at h
    split_ifs at h with hunder hwhole
    · exact List.forall_mem_cons.2 ⟨by rw [hunder]; rfl, ih h⟩
    · split at h
      · rename_i d hd
        split_ifs at h
        exact List.forall_mem_cons.2 ⟨by simp [isNumeralByte, hd], ih h⟩
      · cases h

/-- A decimal number starts with a digit. -/
theorem readDigits_head {t : Text} {m : Nat} (h : readDigits 10 false 0 t = some m) :
    ∃ b rest, t = b :: rest ∧ 48 ≤ b ∧ b ≤ 57 := by
  cases t with
  | nil => cases h
  | cons b t =>
    have hdigit : ∀ b : UInt8, ∀ d, digitValue? b = some d → d < 10 → 48 ≤ b ∧ b ≤ 57 :=
      Text.forall_byte (p := fun b => ∀ d, digitValue? b = some d → d < 10 → 48 ≤ b ∧ b ≤ 57) (by
        intro n hn d hd hlt
        have hall : ∀ n < 256, ∀ d < 10, digitValue? (UInt8.ofNat n) = some d → 48 ≤ UInt8.ofNat n ∧ UInt8.ofNat n ≤ 57 := by
          decide +kernel
        exact hall n hn d hlt hd)
    rw [readDigits, if_neg Bool.false_ne_true] at h
    split_ifs at h
    split at h
    · rename_i d hd
      split_ifs at h with hlt
      exact ⟨b, t, rfl, hdigit b d hd hlt⟩
    · cases h

theorem isNumeralByte_of_baseOf (b : UInt8) : (baseOf? b).isSome = true → isNumeralByte b = true :=
  Text.forall_byte (p := fun b => (baseOf? b).isSome = true → isNumeralByte b = true) (by decide +kernel) b

theorem readMagnitude_bytes {t : Text} {n : Nat} (h : readMagnitude t = some n) :
    (∃ b rest, t = b :: rest ∧ 48 ≤ b ∧ b ≤ 57) ∧ ∀ b ∈ t, isNumeralByte b = true := by
  have hzero : isNumeralByte 48 = true := rfl
  unfold readMagnitude at h
  split at h
  · refine ⟨⟨48, _, rfl, by decide, by decide⟩, List.forall_mem_cons.2 ⟨hzero, ?_⟩⟩
    split at h
    · rename_i base hbase
      exact List.forall_mem_cons.2 ⟨isNumeralByte_of_baseOf _ (by rw [hbase]; rfl), readDigits_bytes h⟩
    · exact readDigits_bytes h
  · exact ⟨⟨48, _, rfl, by decide, by decide⟩, List.forall_mem_cons.2 ⟨hzero, readDigits_bytes h⟩⟩
  · exact ⟨readDigits_head h, readDigits_bytes h⟩

/-- A number that is read is a magnitude, with or without a sign. -/
theorem read_magnitude {t : Text} {n : Int} (h : read t = some n) :
    ∃ u m, readMagnitude u = some m ∧ (t = u ∨ t = 43 :: u ∨ t = 45 :: u) := by
  unfold read at h
  split at h
  · rename_i u
    cases hm : readMagnitude u with
    | none => simp [hm, read.inRange] at h
    | some m => exact ⟨u, m, hm, .inr (.inl rfl)⟩
  · rename_i u
    cases hm : readMagnitude u with
    | none => simp [hm, read.inRange] at h
    | some m => exact ⟨u, m, hm, .inr (.inr rfl)⟩
  · cases hm : readMagnitude t with
    | none => simp [hm, read.inRange] at h
    | some m => exact ⟨t, m, hm, .inl rfl⟩

/-- What is read as a number starts with a digit or a sign, and is made of letters, digits, underscores and signs. -/
theorem read_bytes {t : Text} {n : Int} (h : read t = some n) :
    (∃ b rest, t = b :: rest ∧ startsNumeral b = true) ∧ ∀ b ∈ t, isNumeralByte b = true ∨ b = 43 ∨ b = 45 := by
  obtain ⟨u, m, hm, ht⟩ := read_magnitude h
  obtain ⟨⟨x, rest, hu, hlow, hhigh⟩, hbytes⟩ := readMagnitude_bytes hm
  rcases ht with rfl | rfl | rfl
  · exact ⟨⟨x, rest, hu, by simp [startsNumeral, hlow, hhigh]⟩, fun b hb => .inl (hbytes b hb)⟩
  · exact ⟨⟨43, u, rfl, rfl⟩, List.forall_mem_cons.2 ⟨.inr (.inl rfl), fun b hb => .inl (hbytes b hb)⟩⟩
  · exact ⟨⟨45, u, rfl, rfl⟩, List.forall_mem_cons.2 ⟨.inr (.inr rfl), fun b hb => .inl (hbytes b hb)⟩⟩

/-! ## Numerals of a word -/

/-- A text is a numeral of a word's value. -/
def Denotes (t : Text) (w : Word) : Prop := (read t).bind Word.ofInt? = some w

namespace Denotes

variable {t : Text} {w : Word}

theorem of_read {n : Int} (hread : read t = some n) (hword : Word.ofInt? n = some w) : Denotes t w := by
  rw [Denotes, hread]
  exact hword

theorem head (h : Denotes t w) : ∃ b rest, t = b :: rest ∧ startsNumeral b = true := by
  obtain ⟨n, hn, -⟩ := Option.bind_eq_some_iff.1 h
  exact (read_bytes hn).1

theorem bytes (h : Denotes t w) : ∀ b ∈ t, Text.isSolid b = true ∧ Scan.isPlain b = true ∧ b ≠ 59 ∧ b ≠ 44 ∧ b ≠ 10 := by
  have hall : ∀ b, isNumeralByte b = true ∨ b = 43 ∨ b = 45 →
      Text.isSolid b = true ∧ Scan.isPlain b = true ∧ b ≠ 59 ∧ b ≠ 44 ∧ b ≠ 10 :=
    Text.forall_byte (p := fun b => isNumeralByte b = true ∨ b = 43 ∨ b = 45 →
      Text.isSolid b = true ∧ Scan.isPlain b = true ∧ b ≠ 59 ∧ b ≠ 44 ∧ b ≠ 10) (by decide +kernel)
  obtain ⟨n, hn, -⟩ := Option.bind_eq_some_iff.1 h
  exact fun b hb => hall b ((read_bytes hn).2 b hb)

/-- The last byte is a sign in no numeral. -/
theorem last (h : Denotes t w) : ∃ b ∈ t.getLast?, isNumeralByte b = true := by
  obtain ⟨n, hn, -⟩ := Option.bind_eq_some_iff.1 h
  obtain ⟨u, m, hm, ht⟩ := read_magnitude hn
  obtain ⟨⟨x, rest, rfl, -⟩, hbytes⟩ := readMagnitude_bytes hm
  have hlast : t.getLast? = (x :: rest).getLast? := by
    rcases ht with rfl | rfl | rfl
    · rfl
    · exact List.getLast?_cons_of_ne_nil (by simp)
    · exact List.getLast?_cons_of_ne_nil (by simp)
  refine ⟨(x :: rest).getLast (by simp), ?_, hbytes _ (List.getLast_mem _)⟩
  rw [hlast, Option.mem_def, List.getLast?_eq_some_getLast]

theorem solid (h : Denotes t w) : ∀ b ∈ t, Text.isSolid b = true := fun b hb => (h.bytes b hb).1

theorem piece (h : Denotes t w) : Text.Piece t := by
  obtain ⟨b, rest, heq, -⟩ := h.head
  refine .of_bytes ⟨b, by rw [heq]; rfl, h.solid b (by simp [heq])⟩ (fun x hx => h.solid x (List.mem_of_getLast? hx))
    (Scan.run_plain (fun x hx => (h.bytes x hx).2.1) 0) fun x hx => (h.bytes x hx).2.2

theorem trim_eq (h : Denotes t w) : Text.trim t = t := h.piece.trim_eq

/-- A numeral is no name: a name starts with another byte. -/
theorem not_name (h : Denotes t w) : Text.isName t = false := by
  have hall : ∀ b, startsNumeral b = true → Text.isNameStart b = false :=
    Text.forall_byte (p := fun b => startsNumeral b = true → Text.isNameStart b = false) (by decide +kernel)
  obtain ⟨b, rest, rfl, hb⟩ := h.head
  rw [Text.isName, hall b hb]
  rfl

/-- Nothing that starts with a letter or a mark is a numeral, in any letter case. -/
theorem upper_ne (h : Denotes t w) {s : Text} (hs : ∀ b ∈ s.head?, startsNumeral b = false) : Text.upper t ≠ s := by
  have hall : ∀ b, startsNumeral b = true → b < 0x80 ∧ Text.upperByte b = b :=
    Text.forall_byte (p := fun b => startsNumeral b = true → b < 0x80 ∧ Text.upperByte b = b) (by decide +kernel)
  obtain ⟨b, rest, rfl, hb⟩ := h.head
  rintro rfl
  rw [Text.upper_cons (hall b hb).1, (hall b hb).2] at hs
  rw [hs b rfl] at hb
  cases hb

end Denotes

/-- A number that is written with its base and its digits, as it is kept. -/
theorem read_digits (w : Word) : read (Text.ofString "0x" ++ digits 16 w.toNat) = some (w.toNat : Int) := by
  have hw := w.toNat_lt
  have hne : digits 16 w.toNat ≠ [] := digitsOnto_ne_nil 16 (w.toNat + 1) w.toNat (.inr (by omega))
  obtain ⟨b, rest, hdigits⟩ := List.exists_cons_of_ne_nil hne
  have hvalue : readDigits 16 true 0 (digits 16 w.toNat) = some w.toNat :=
    readDigits_digitsOnto _ _ (Nat.lt_succ_self _) true []
  have hmagnitude : readMagnitude (48 :: 120 :: digits 16 w.toNat) = some w.toNat := by
    rw [hdigits] at hvalue ⊢
    rw [readMagnitude, show baseOf? 120 = some 16 from rfl]
    exact hvalue
  exact read_unsigned hmagnitude (by omega)

theorem digits_denotes (w : Word) : Denotes (Text.ofString "0x" ++ digits 16 w.toNat) w :=
  .of_read (read_digits w) w.ofInt_toNat

theorem render_denotes (w : Word) : Denotes w.render w := .of_read w.read_render w.ofInt_toNat

/-! ## Letter case -/

theorem readDigits_sameLetters (base : Nat) : ∀ {t u : Text}, t.SameLetters u → ∀ (whole : Bool) (n : Nat),
    readDigits base whole n t = readDigits base whole n u
  | [], [], _, _, _ => rfl
  | [], _ :: _, h, _, _ => by cases h
  | _ :: _, [], h, _, _ => by cases h
  | b :: t, c :: u, h, whole, n => by
    have hunder : ∀ b, b = Text.byte '_' ↔ Text.upperByte b = Text.byte '_' :=
      Text.forall_byte (p := fun b => b = Text.byte '_' ↔ Text.upperByte b = Text.byte '_') (by decide +kernel)
    have hdigit : ∀ b, digitValue? b = digitValue? (Text.upperByte b) :=
      Text.forall_byte (p := fun b => digitValue? b = digitValue? (Text.upperByte b)) (by decide +kernel)
    obtain ⟨hhead, htail⟩ := List.cons.inj h
    have ih := readDigits_sameLetters base (t := t) (u := u) htail
    rw [readDigits, readDigits, hdigit b, hdigit c, hhead]
    simp only [hunder b, hunder c, hhead, ih]

/-- The digits and the base of a number can be written in either case. -/
theorem denotes_of_sameLetters {t : Text} {w : Word} (h : t.SameLetters w.render) : Denotes t w := by
  have hzero : ∀ b, Text.upperByte b = 48 → b = 48 :=
    Text.forall_byte (p := fun b => Text.upperByte b = 48 → b = 48) (by decide +kernel)
  have hmark : ∀ b, Text.upperByte b = 88 → baseOf? b = some 16 :=
    Text.forall_byte (p := fun b => Text.upperByte b = 88 → baseOf? b = some 16) (by decide +kernel)
  have hw := w.toNat_lt
  have hlength : t.length = 6 := by
    have hmap := congrArg List.length h
    rwa [List.length_map, List.length_map] at hmap
  obtain ⟨x, m, d, rest, rfl⟩ : ∃ x m d rest, t = x :: m :: d :: rest := by
    rcases t with _ | ⟨x, _ | ⟨m, _ | ⟨d, rest⟩⟩⟩
    · cases hlength
    · cases hlength
    · cases hlength
    · exact ⟨x, m, d, rest, rfl⟩
  obtain ⟨hx, htail⟩ := List.cons.inj h
  obtain ⟨hm, hdigits⟩ := List.cons.inj htail
  cases hzero x hx
  have hvalue : readDigits 16 true 0 (d :: rest) = some w.toNat := by
    rw [readDigits_sameLetters 16 (u := hexWord w) hdigits]
    have hrender := w.readMagnitude_render
    rw [Word.render_eq, hexWord, readMagnitude, show baseOf? 120 = some 16 from rfl] at hrender
    exact hrender
  have hmagnitude : readMagnitude (48 :: m :: d :: rest) = some w.toNat := by
    rw [readMagnitude, hmark m hm]
    exact hvalue
  exact .of_read (read_unsigned hmagnitude (by omega)) w.ofInt_toNat

end Dcpu16.Numeral
