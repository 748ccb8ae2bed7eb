/-
Trailing words. The machine says for each operand code whether a word of its own follows it; the encoder and the decoder
have their own tables of codes. All three agree: a field has a literal exactly if its code takes a word, an operand is
decoded from exactly as many words, and it is encoded to the code and the word that it was decoded from. The one
exception is a small number behind the code of the next word, which is encoded to a code of its own.
-/
import Dcpu16.Proofs.Image.Codec

namespace Dcpu16.Decode

variable {canonical : Bool} {p : Position} {code : Word} {rest : List Word} {o : Operand} {n : Nat}

theorem encode_folds {w : Word} (hw : w.inlineCode?.isSome = true) :
    ∃ c, Position.value.encode (.immediate (.number w)) = .ok { code := c } := by
  obtain ⟨c, hc⟩ := Option.isSome_iff_exists.1 hw
  exact ⟨c, by simp [Position.encode, Operand.encodeValue, Literal.field, hc]⟩

theorem Recoded.encode_eq (h : Recoded p code rest o n) :
    p.encode o = .ok { code, next := (rest.take n).head?.map .number } := by
  obtain ⟨-, ⟨code, next⟩, hf, rfl, htrailing⟩ := h
  rw [hf]
  rcases next with - | (w | name)
  · have htake : rest.take n = [] := List.map_eq_nil_iff.1 htrailing.symm
    rw [htake]
    rfl
  · obtain ⟨v, hv, heq⟩ := List.map_eq_singleton_iff.1 htrailing.symm
    cases heq
    rw [hv]
    rfl
  · obtain ⟨v, -, heq⟩ := List.map_eq_singleton_iff.1 htrailing.symm
    cases heq

/-- The number of words taken is told by the code. -/
theorem Recoded.taken (h : Recoded p code rest o n) : n = if code.takesNext then 1 else 0 := by
  have hlength : (rest.take n).length = n := List.length_take_of_le h.within
  obtain ⟨-, f, hf, rfl, htrailing⟩ := h
  have hone : f.trailing.length = n := by rw [htrailing, List.length_map, hlength]
  rw [← (encode_fits hf).next, ← hone, Field.trailing]
  cases f.next <;> rfl

theorem operand_taken (h : operand canonical p code rest = some (o, n)) :
    code.toNat < p.limit ∧ n = if code.takesNext then 1 else 0 := by
  by_cases hcode : code = Word.nextLiteralCode
  · subst hcode
    obtain ⟨rfl, w, more, -, -, rfl, -⟩ := operand_nextLiteral h
    exact ⟨by decide, rfl⟩
  · have hrecoded := operand_recoded (.inr fun hfolds => hcode hfolds.1) h
    exact ⟨(encode_fits hrecoded.encode_eq).below, hrecoded.taken⟩

/-- The codes of a position are decoded, if the word that they take is there and a canonical decoder does not find it small. -/
theorem exists_operand (hlimit : code.toNat < p.limit) (hnext : code.takesNext = true → rest ≠ [])
    (hfolds : canonical = true → ¬ Folds code rest) : ∃ found, operand canonical p code rest = some found := by
  rcases operand_cases canonical p code rest with
    ⟨o, -, heq⟩ | ⟨g, hencode, heq⟩ | ⟨rfl, rfl⟩ | ⟨hge, -⟩
  · exact ⟨_, heq⟩
  · have htakes : code.takesNext = true := (encode_fits (hencode (.number 0))).next.symm
    obtain ⟨w, more, rfl⟩ := List.exists_cons_of_ne_nil (hnext htakes)
    exact ⟨_, heq⟩
  · obtain ⟨w, more, rfl⟩ := List.exists_cons_of_ne_nil (hnext rfl)
    have hsmall : ¬ (canonical && w.inlineCode?.isSome) = true := by
      rw [Bool.and_eq_true]
      rintro ⟨hcanonical, hw⟩
      exact hfolds hcanonical ⟨rfl, w, rfl, hw⟩
    refine ⟨(.immediate (.number w), 1), ?_⟩
    show (if canonical && w.inlineCode?.isSome then none else some (Operand.immediate (.number w), 1)) = _
    exact if_neg hsmall
  · omega

/-- The encoder and the decoder of a position agree with the machine on trailing words. A code that is encoded is one of the
position, and has a literal exactly if it takes a word. A code is decoded exactly if it is one of the position, its word
is there and, for a canonical decoder, not to be folded; the operand has taken one word or none as the code says, and is
encoded to the same code and word exactly if the word is not to be folded. -/
theorem trailing_agree (p : Position) :
    (∀ o f, p.encode o = .ok f → f.code.toNat < p.limit ∧ f.next.isSome = f.code.takesNext) ∧
    ∀ canonical code rest,
      ((∃ found, operand canonical p code rest = some found) ↔
        code.toNat < p.limit ∧ (code.takesNext = true → rest ≠ []) ∧ (canonical = true → ¬ Folds code rest)) ∧
      ∀ o n, operand canonical p code rest = some (o, n) →
        n = (if code.takesNext then 1 else 0) ∧ n ≤ rest.length ∧
        (p.encode o = .ok { code, next := (rest.take n).head?.map .number } ↔ ¬ Folds code rest) := by
  refine ⟨fun o f h => ⟨(encode_fits h).below, (encode_fits h).next⟩, fun canonical code rest => ⟨⟨?_, ?_⟩, ?_⟩⟩
  · rintro ⟨⟨o, n⟩, h⟩
    obtain ⟨hlimit, htaken⟩ := operand_taken h
    refine ⟨hlimit, fun htakes => ?_, ?_⟩
    · rintro rfl
      have hwithin := operand_within h
      rw [htaken, if_pos htakes] at hwithin
      cases hwithin
    · rintro rfl ⟨rfl, w, hhead, hw⟩
      obtain ⟨-, v, more, rfl, -, -, hsmall⟩ := operand_nextLiteral h
      cases hhead
      rw [hsmall rfl] at hw
      cases hw
  · rintro ⟨hlimit, hnext, hfolds⟩
    exact exists_operand hlimit hnext hfolds
  · intro o n h
    refine ⟨(operand_taken h).2, operand_within h, ?_, fun hfolds => (operand_recoded (.inr hfolds) h).encode_eq⟩
    rintro hencode ⟨rfl, w, hhead, hw⟩
    obtain ⟨rfl, v, more, rfl, rfl, rfl, -⟩ := operand_nextLiteral h
    cases hhead
    obtain ⟨c, hc⟩ := encode_folds hw
    rw [hc] at hencode
    cases hencode

/-- A pointer with a label as its offset, and the largest small number and the one after it as words of their own. -/
theorem trailing_agree_boundary :
    let pick := Field.mk 0x1a (some (.label (Text.ofString "x")))
    Position.destination.encode (.offset .sp (.label (Text.ofString "x"))) = .ok pick ∧
    pick.code.toNat < Position.destination.limit ∧ pick.next.isSome = pick.code.takesNext ∧
    operand false .value 0x1f [30] = some (.immediate (.number 30), 1) ∧
    Position.value.encode (.immediate (.number 30)) ≠ .ok { code := 0x1f, next := some (.number 30) } ∧
    operand true .value 0x1f [31] = some (.immediate (.number 31), 1) ∧ 1 = (if Word.takesNext 0x1f then 1 else 0) ∧
    Position.value.encode (.immediate (.number 31)) = .ok { code := 0x1f, next := some (.number 31) } := by
  intro pick
  have hpick : Position.destination.encode (.offset .sp (.label (Text.ofString "x"))) = .ok pick := rfl
  obtain ⟨hbelow, hnext⟩ := (trailing_agree .destination).1 _ pick hpick
  have hsmall : operand false .value 0x1f [30] = some (.immediate (.number 30), 1) := rfl
  have hlarge : operand true .value 0x1f [31] = some (.immediate (.number 31), 1) := rfl
  obtain ⟨-, -, hfolded⟩ := ((trailing_agree .value).2 false 0x1f [30]).2 _ _ hsmall
  obtain ⟨htaken, -, hkept⟩ := ((trailing_agree .value).2 true 0x1f [31]).2 _ _ hlarge
  refine ⟨hpick, hbelow, hnext, hsmall, fun h => hfolded.1 h ⟨rfl, 30, rfl, rfl⟩, hlarge, htaken, hkept.2 ?_⟩
  rintro ⟨-, w, hhead, hw⟩
  cases hhead
  cases hw

end Dcpu16.Decode
