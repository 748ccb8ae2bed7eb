/-
Spellings of one operand. A register and the literal that is added to it can stand in either order, a number can be taken off
instead of added, and the top of the stack has a short form with an offset and one without. What is on the other
side of the sign is any literal that is accepted: a literal can have signs of its own, as a numeral has in front and as
characters and expressions have between their marks, and none of these is taken for the one between the two parts.
-/
import Dcpu16.Proofs.Source.Accepted
import Dcpu16.Proofs.Source.Address

namespace Dcpu16.Equates

variable [Evaluator] {e : Equates} {s n : Text} {r : Register} {l : Literal} {w : Word}

/-! ## Texts of literals -/

/-- What has a value is an expression between its marks, a character between quote marks or a numeral. -/
theorem value_cases {t : Text} (h : e.value t = .ok w) :
    (∃ inner, t = Text.ofString "$(" ++ (inner ++ Text.ofString ")")) ∨
      (∃ inner, t = Text.ofString "'" ++ (inner ++ Text.ofString "'")) ∨ Numeral.Denotes t w := by
  unfold value at h
  split at h
  · rename_i inner hbetween
    exact .inl ⟨inner, Text.eq_of_between? hbetween⟩
  · split at h
    · rename_i b body hbetween
      exact .inr (.inl ⟨b :: body, Text.eq_of_between? hbetween⟩)
    · split at h
      · rename_i number hnumber
        cases h
        exact .inr (.inr hnumber)
      · cases h

/-- What has a value begins with no letter. -/
theorem value_head {t : Text} (h : e.value t = .ok w) : ∃ b rest, t = b :: rest ∧ b < 65 := by
  rcases value_cases h with ⟨inner, rfl⟩ | ⟨inner, rfl⟩ | hdenotes
  · exact ⟨36, _, rfl, by decide⟩
  · exact ⟨39, _, rfl, by decide⟩
  · obtain ⟨b, rest, heq, hb⟩ := hdenotes.head
    exact ⟨b, rest, heq, Numeral.startsNumeral_lt b hb⟩

/-- What has a value ends with no white space and no plus sign. -/
theorem value_last {t : Text} (h : e.value t = .ok w) : ∃ b ∈ t.getLast?, Text.isSolid b = true ∧ b ≠ 43 := by
  have hall : ∀ b, Numeral.isNumeralByte b = true → Text.isSolid b = true ∧ b ≠ 43 :=
    Text.forall_byte (p := fun b => Numeral.isNumeralByte b = true → Text.isSolid b = true ∧ b ≠ 43) (by decide +kernel)
  rcases value_cases h with ⟨inner, rfl⟩ | ⟨inner, rfl⟩ | hdenotes
  · exact ⟨41, by rw [← List.append_assoc]; exact List.getLast?_concat, rfl, by decide⟩
  · exact ⟨39, by rw [← List.append_assoc]; exact List.getLast?_concat, rfl, by decide⟩
  · obtain ⟨b, hb, hbyte⟩ := hdenotes.last
    exact ⟨b, hb, hall b hbyte⟩

/-- No literal is a register too. -/
theorem literal_not_register (hn : e.literal n = .ok l) : e.register? (Text.trim n) = none := by
  rcases literal_cases hn with ⟨w, hw, -⟩ | ⟨-, hregister, -⟩
  · obtain ⟨b, rest, heq, hb⟩ := value_head hw
    rw [register?, heq]
    exact Register.ofName_eq_none hb rest
  · exact hregister

/-- The trimmed text of a literal ends as a name does, or as a value does. -/
theorem trim_last (h : e.Named) (hn : e.literal n = .ok l) :
    ∃ b ∈ (Text.trim n).getLast?, Text.isSolid b = true ∧ b ≠ 43 := by
  by_cases hname : Text.isName (Text.trim n) = true
  · have hword := Text.isName_word hname
    obtain ⟨b, hb, hsolid⟩ := hword.last_solid
    exact ⟨b, hb, hsolid, fun he => hword.not_mem rfl (he ▸ List.mem_of_getLast? hb)⟩
  · -- what is no name stands for itself
    rw [Bool.not_eq_true] at hname
    rcases literal_cases hn with ⟨w, hw, -⟩ | ⟨hself, -, -⟩
    · rw [h.expand_eq hname] at hw
      exact value_last hw
    · rw [h.expand_eq hname, hname] at hself
      cases hself

/-- A literal does not end with a plus sign, and there is something in it. -/
theorem literal_last (h : e.Named) (hn : e.literal n = .ok l) : ∃ b ∈ n.getLast?, b ≠ 43 := by
  obtain ⟨x, y, hx, hy, heq⟩ := Text.exists_trim n
  obtain ⟨b, hb, -, hne⟩ := trim_last h hn
  rw [Option.mem_def] at hb
  cases hlast : y.getLast? with
  | none => exact ⟨b, by rw [heq, List.getLast?_append, List.getLast?_append, hlast, hb]; rfl, hne⟩
  | some c =>
    refine ⟨c, by rw [heq, List.getLast?_append, List.getLast?_append, hlast]; rfl, ?_⟩
    rintro rfl
    exact Text.not_mem_of_quiet hy.quiet rfl (List.mem_of_getLast? hlast)

theorem literal_trim (e : Equates) (n : Text) : e.literal (Text.trim n) = e.literal n := by
  rw [literal, literal, Text.trim_trim]

/-! ## A sign between a register and a literal -/

/-- The register first. -/
theorem operand_register_first (h : e.Named) (hs : s.IsToken) (hn : e.literal n = .ok l) (sign : UInt8) :
    e.operand (91 :: ((s ++ sign :: n) ++ [93])) = e.indirection (s ++ sign :: n) := by
  refine operand_brackets h (upper_ne_push fun he => ?_) (upper_ne_pop fun he => ?_)
  · rw [List.head?_append_of_ne_nil _ hs.ne_nil] at he
    exact Text.not_mem_of_quiet hs.quiet rfl (List.mem_of_head? he)
  · obtain ⟨b, hb, hne⟩ := literal_last h hn
    rw [Option.mem_def] at hb
    rw [List.getLast?_append, List.getLast?_cons, hb] at he
    cases he
    exact hne rfl

/-- The literal first. It can begin with a minus sign, as the form for a push does, but this has no plus sign. -/
theorem operand_literal_first (h : e.Named) (hs : s.IsToken) (n : Text) :
    e.operand (91 :: ((n ++ 43 :: s) ++ [93])) = e.indirection (n ++ 43 :: s) := by
  refine operand_brackets h (fun he => ?_) (upper_ne_pop fun he => ?_)
  · have hplus : 43 ∈ n ++ 43 :: s := by simp
    rcases Text.mem_of_upper 43 hplus with hmem | hmem
    · rw [he] at hmem
      exact absurd hmem (by decide +kernel)
    · exact absurd hmem (by decide)
  · rw [List.getLast?_append_of_ne_nil _ (by simp), List.getLast?_cons_of_ne_nil hs.ne_nil] at he
    exact Text.not_mem_of_quiet hs.quiet rfl (List.mem_of_getLast? he)

/-- A label is not taken off a register. -/
theorem indirection_minus_label {inner t u name : Text} (hparts : e.addressParts inner = ([t, u], true))
    (hr : e.register? t = some r) (hu : e.literal u = .ok (.label name)) :
    e.indirection inner = .error .indirectionInvalid := by
  have hother : e.registerAndOther? t u = some (r, u) := by rw [registerAndOther?, hr]
  rw [indirection, hparts]
  simp only [hother, hu]

theorem operand_sum (h : e.Named) (hs : e.register? s = some r) (hn : e.literal n = .ok l) (hpart : Text.Part 43 n) :
    e.operand (91 :: ((s ++ 43 :: n) ++ [93])) = .ok (.offset r l) ∧
      e.operand (91 :: ((n ++ 43 :: s) ++ [93])) = .ok (.offset r l) := by
  have htoken := h.register_token hs
  have hspart : Text.Part 43 s := Text.part_of_quiet rfl htoken.quiet
  have htrim : Text.trim s = s := htoken.unbroken.trim_eq
  have hliteral : e.literal (Text.trim n) = .ok l := by rw [literal_trim, hn]
  have hfirst : e.registerAndOther? (Text.trim s) (Text.trim n) = some (r, Text.trim n) := by
    rw [htrim, registerAndOther?, hs]
  have hsecond : e.registerAndOther? (Text.trim n) (Text.trim s) = some (r, Text.trim n) := by
    rw [htrim, registerAndOther?, literal_not_register hn, hs]
    rfl
  constructor
  · rw [operand_register_first h htoken hn, indirection_plus (addressParts_sum hspart hpart) hfirst, hliteral]
    rfl
  · rw [operand_literal_first h htoken, indirection_plus (addressParts_sum hpart hspart) hsecond, hliteral]
    rfl

/-! ## Short forms for the stack -/

theorem operand_blank {x y : Text} (hx : x.IsBlank) (hy : y.IsBlank) (t : Text) :
    e.operand (x ++ (t ++ y)) = e.operand t := by
  rw [operand, operand, Text.trim_blank hx hy]

theorem operand_pick_literal (h : e.Named) (hn : e.literal n = .ok l) {word gap : Text}
    (hword : Text.upper word = Text.ofString "PICK") (hgap : Text.IsBlank gap) (hne : gap ≠ []) :
    e.operand (word ++ (gap ++ n)) = .ok (.offset .sp l) := by
  obtain ⟨x, y, hx, hy, heq⟩ := Text.exists_trim n
  obtain ⟨b, hb, hsolid, -⟩ := trim_last h hn
  -- white space in front of the literal belongs to the gap, and the operand is trimmed of what is behind it
  have htext : word ++ (gap ++ n) = [] ++ ((word ++ ((gap ++ x) ++ Text.trim n)) ++ y) := by
    conv_lhs => rw [heq]
    simp
  rw [htext, operand_blank .nil hy, operand_pick h hword (hgap.append hx) (by simp [hne]) ⟨b, hb, hsolid⟩, literal_trim, hn]
  rfl

theorem operand_peek {word : Text} (hword : Text.upper word = Text.ofString "PEEK") (hnone : e.get? word = none) :
    e.operand word = .ok (.indirect .sp) := by
  have htoken := Text.token_of_keyword rfl hword
  have hself : e.expand word = word := by rw [expand, hnone]; rfl
  have hempty : word.isEmpty = false := List.isEmpty_eq_false_iff.2 htoken.ne_nil
  unfold operand
  simp only [htoken.unbroken.trim_eq, hself, hempty, hword]
  rfl

/-! ## One operand -/

/-- What names a register and a literal that is accepted, the literal a part of an address by itself, give the same operand in both
orders. After a minus sign a number counts as its negative, and a label is an error. The short forms for the stack, in
any letter case and with any white space, are the operands that their long forms are. -/
theorem operand_spellings (e : Equates) (s n : Text) (r : Register) (l : Literal) (h : e.Named)
    (hs : e.register? s = some r) (hn : e.literal n = .ok l) (hpart : Text.Part 43 n) :
    e.operand (91 :: ((s ++ 43 :: n) ++ [93])) = .ok (.offset r l) ∧
    e.operand (91 :: ((n ++ 43 :: s) ++ [93])) = .ok (.offset r l) ∧
    (∀ w, l = .number w →
      e.operand (91 :: ((s ++ 45 :: n) ++ [93])) = .ok (.offset r (.number (-w))) ∧
      (-w).toNat = (0x10000 - w.toNat) % 0x10000) ∧
    (∀ name, l = .label name → e.operand (91 :: ((s ++ 45 :: n) ++ [93])) = .error .indirectionInvalid) ∧
    (e.get? (Text.ofString "SP") = none →
      (∀ word gap, Text.upper word = Text.ofString "PICK" → Text.IsBlank gap → gap ≠ [] →
        e.operand (word ++ (gap ++ n)) = e.operand (91 :: ((Text.ofString "SP" ++ 43 :: n) ++ [93])) ∧
        e.operand (word ++ (gap ++ n)) = .ok (.offset .sp l)) ∧
      ∀ word, Text.upper word = Text.ofString "PEEK" → e.get? word = none →
        e.operand word = e.operand (Text.ofString "[SP]") ∧ e.operand word = .ok (.indirect .sp)) := by
  obtain ⟨hsum, hsum'⟩ := operand_sum h hs hn hpart
  have htoken := h.register_token hs
  have hminus := operand_register_first h htoken hn 45
  have hparts : e.addressParts (s ++ 45 :: n) = ([s, Text.trim n], true) := by
    have hparts := addressParts_difference htoken .nil .nil hpart (by rw [hs]; rfl)
    rwa [List.append_nil, List.nil_append] at hparts
  refine ⟨hsum, hsum', ?_, ?_, fun hnone => ?_⟩
  · rintro w rfl
    refine ⟨?_, by simp⟩
    rw [hminus, indirection_minus hparts hs (by rw [literal_trim, hn])]
  · rintro name rfl
    rw [hminus, indirection_minus_label hparts hs (by rw [literal_trim, hn])]
  · have hsp : e.register? (Text.ofString "SP") = some .sp := by
      rw [register?, expand, hnone]
      rfl
    refine ⟨fun word gap hword hgap hne => ?_, fun word hword hget => ?_⟩
    · rw [operand_pick_literal h hn hword hgap hne, (operand_sum h hsp hn hpart).1]
      exact ⟨rfl, rfl⟩
    · have hlong : e.operand (Text.ofString "[SP]") = .ok (.indirect .sp) := by
        have htoken := h.register_token hsp
        exact (operand_around h htoken .nil .nil).trans (indirection_register htoken .nil .nil hsp)
      rw [operand_peek hword hget, hlong]
      exact ⟨rfl, rfl⟩

end Dcpu16.Equates

/-- A register through an equate, with a plus sign as a character and with a label. -/
theorem Dcpu16.Equates.operand_spellings_equate :
    let _ : Evaluator := ⟨fun _ _ => none⟩
    let e : Equates := systemEquates.insert (Text.ofString "R") (Text.ofString "x")
    let s := Text.ofString "R"
    let n := Text.ofString "'+' "
    let label := Text.ofString "loop"
    e.operand (91 :: ((s ++ 43 :: n) ++ [93])) = .ok (.offset (.general 3) (.number 43)) ∧
    e.operand (91 :: ((n ++ 43 :: s) ++ [93])) = .ok (.offset (.general 3) (.number 43)) ∧
    e.operand (91 :: ((s ++ 45 :: n) ++ [93])) = .ok (.offset (.general 3) (.number 0xffd5)) ∧
    e.operand (91 :: ((s ++ 45 :: label) ++ [93])) = .error .indirectionInvalid ∧
    e.operand (Text.ofString "Pick" ++ (Text.ofString "\t " ++ label)) = .ok (.offset .sp (.label label)) ∧
    e.operand (Text.ofString "peek") = e.operand (Text.ofString "[SP]") := by
  intro _ e s n label
  have hnamed : e.Named := systemEquates_named.insert (by decide +kernel) _
  have hs : e.register? s = some (.general 3) := by decide +kernel
  have hn : e.literal n = .ok (.number 43) := ok_of_toOption (by decide +kernel)
  have hlabel : e.literal label = .ok (.label label) := ok_of_toOption (by decide +kernel)
  have hnpart : Text.Part 43 n := ⟨rfl, rfl, rfl, rfl, rfl, trivial⟩
  have hlabelpart : Text.Part 43 label := Text.part_of_quiet rfl (Text.isName_word rfl).token.quiet
  obtain ⟨hfirst, hsecond, hnumber, -⟩ := operand_spellings e s n (.general 3) _ hnamed hs hn hnpart
  obtain ⟨-, -, -, hinvalid, hstack⟩ := operand_spellings e s label (.general 3) _ hnamed hs hlabel hlabelpart
  obtain ⟨hpick, hpeek⟩ := hstack (by decide +kernel)
  have hgap : Text.IsBlank (Text.ofString "\t ") := .of_chars ['\t', ' '] (by decide)
  exact ⟨hfirst, hsecond, (hnumber _ rfl).1, hinvalid _ rfl,
    (hpick _ _ (by decide +kernel) hgap (by decide)).2, (hpeek _ (by decide +kernel) (by decide +kernel)).1⟩
