/-
Decoding an image and making the image again. A decoder cuts the words into pieces, one for each
instruction (`Cut`). The cells of a canonically decoded instruction are the words of its piece and hold
no label, so laying out the instructions writes the pieces back one after the other, up to the first that
ends beyond memory.
-/
import Dcpu16.Proofs.Image.Codec
import Dcpu16.Image.Draft

namespace Dcpu16

/-- The address after the last word of a decoded instruction. -/
def Decoded.stop (d : Decoded) : Nat := d.address + d.words.length

namespace Decode

/-! ## The pieces of an image -/

/-- Decoding `words` from an address on cuts them into these pieces. -/
inductive Cut (canonical : Bool) : Nat → List Word → List Decoded → Prop
  | nil (address : Nat) : Cut canonical address [] []
  | cons {address : Nat} {w : Word} {rest : List Word} {i : Instruction} {n : Nat} {ds : List Decoded}
      (head : first canonical w rest = (i, n)) (tail : Cut canonical (address + 1 + n) (rest.drop n) ds) :
      Cut canonical address (w :: rest) (⟨address, w :: rest.take n, i⟩ :: ds)

/-- The accumulator holds the pieces before, and the words still to be skipped belong to the last. -/
theorem onto_cut (canonical : Bool) :
    ∀ (words : List Word) (n address : Nat) (acc : List Decoded),
      ∃ ds, onto canonical acc address n words = ds.reverse ++ acc ∧ Cut canonical (address + n) (words.drop n) ds
  | [], n, address, acc => ⟨[], by simp [onto], by simpa using Cut.nil _⟩
  | _ :: rest, n + 1, address, acc => by
    obtain ⟨ds, h, cut⟩ := onto_cut canonical rest n (address + 1) acc
    exact ⟨ds, h, by simpa [Nat.add_assoc, Nat.add_comm 1] using cut⟩
  | w :: rest, 0, address, acc => by
    rcases hf : first canonical w rest with ⟨i, n⟩
    obtain ⟨ds, h, cut⟩ := onto_cut canonical rest n (address + 1) (⟨address, w :: rest.take n, i⟩ :: acc)
    exact ⟨_, by simp [onto, hf, h], .cons hf cut⟩

theorem decode_cut (canonical : Bool) (words : List Word) : Cut canonical 0 words (decode canonical words) := by
  obtain ⟨ds, h, cut⟩ := onto_cut canonical words 0 0 []
  unfold decode
  rw [h]
  simpa using cut

theorem first_within {canonical : Bool} {w : Word} {rest : List Word} {i : Instruction} {n : Nat}
    (h : first canonical w rest = (i, n)) : n ≤ rest.length := by
  unfold first at h
  cases hi : instruction? canonical w rest with
  | none =>
    rw [hi] at h
    cases h
    exact Nat.zero_le _
  | some p =>
    rw [hi] at h
    cases h
    unfold instruction? at hi
    obtain ⟨⟨a, m⟩, ha, hi⟩ := Option.bind_eq_some_iff.1 hi
    have hm := operand_within ha
    simp only at hi
    split at hi
    · obtain ⟨op, -, hi⟩ := Option.bind_eq_some_iff.1 hi
      cases hi
      exact hm
    · obtain ⟨op, -, hi⟩ := Option.bind_eq_some_iff.1 hi
      obtain ⟨⟨b, k⟩, hb, hi⟩ := Option.bind_eq_some_iff.1 hi
      cases hi
      have hk := operand_within hb
      rw [List.length_drop] at hk
      omega

namespace Cut

variable {canonical : Bool} {address : Nat} {words : List Word} {ds : List Decoded}

/-- The pieces put together are the image. -/
theorem flatMap_words (cut : Cut canonical address words ds) : ds.flatMap (·.words) = words := by
  induction cut with
  | nil => rfl
  | cons _ _ ih => rw [List.flatMap_cons, ih, List.cons_append, List.take_append_drop]

theorem words_ne_nil (cut : Cut canonical address words ds) : ∀ d ∈ ds, d.words ≠ [] := by
  induction cut with
  | nil => simp
  | cons _ _ ih => exact List.forall_mem_cons.2 ⟨List.cons_ne_nil _ _, ih⟩

/-- A piece starts behind the words of those before it. -/
theorem address_eq (cut : Cut canonical address words ds) {before after : List Decoded} {d : Decoded}
    (h : ds = before ++ d :: after) : d.address = address + (before.flatMap (·.words)).length := by
  induction cut generalizing before with
  | nil => simp at h
  | @cons address w rest i n ds head tail ih =>
    have hn := first_within head
    cases before with
    | nil =>
      cases h
      rfl
    | cons d₀ before =>
      cases h
      rw [ih rfl, List.flatMap_cons, List.length_append, List.length_cons, List.length_take]
      omega

/-- The first piece starts where the words do; without a piece there are no words. -/
theorem head_address (cut : Cut canonical address words ds) :
    (ds.head?.map (·.address)).getD (address + words.length) = address := by
  cases cut with
  | nil => rfl
  | cons _ _ => rfl

/-- The first piece that ends beyond a point of the image is the one around it, and there is none for a point behind
the image. -/
theorem find_stop (cut : Cut canonical address words ds) {x : Nat} (hx : address ≤ x) :
    (x < address + words.length → ∃ d, ds.find? (x < ·.stop) = some d ∧ d.address ≤ x) ∧
    (address + words.length ≤ x → ds.find? (x < ·.stop) = none) := by
  induction cut with
  | nil => exact ⟨fun h => by rw [List.length_nil] at h; omega, fun _ => rfl⟩
  | @cons address w rest i n ds head tail ih =>
    have hn := first_within head
    have hstop : (⟨address, w :: rest.take n, i⟩ : Decoded).stop = address + 1 + n := by
      simp only [Decoded.stop, List.length_cons, List.length_take]
      omega
    rw [List.length_drop] at ih
    rw [List.length_cons]
    by_cases hlt : x < address + 1 + n
    · refine ⟨fun _ => ⟨_, List.find?_cons_of_pos (by simpa [hstop] using hlt), hx⟩, fun h => ?_⟩
      omega
    · rw [List.find?_cons_of_neg (by simpa [hstop] using hlt)]
      obtain ⟨hin, hout⟩ := ih (by omega)
      exact ⟨fun h => hin (by omega), fun h => hout (by omega)⟩

end Cut

/-! ## A canonical instruction is made of its words -/

theorem instruction_cells {w : Word} {rest : List Word} {i : Instruction} {n : Nat}
    (h : instruction? true w rest = some (i, n)) :
    n ≤ rest.length ∧ i.cells = (w :: rest.take n).map .word := by
  unfold instruction? at h
  obtain ⟨⟨a, m⟩, ha, h⟩ := Option.bind_eq_some_iff.1 h
  obtain ⟨hm, value, hvalue, hcode, htrail⟩ := operand_recoded (.inl rfl) ha
  simp only at h
  -- the lowest field is zero in a special instruction and the operation in a basic one
  split at h
  · rename_i hlow
    obtain ⟨op, hop, h⟩ := Option.bind_eq_some_iff.1 h
    cases h
    refine ⟨hm, ?_⟩
    have hv : a.encodeValue = .ok value := hvalue
    simp only [Instruction.cells, Instruction.specialCells, SpecialOp.code_of_ofCode hop, hv, hcode,
      Word.packSpecial_fields w hlow, htrail, List.map_cons]
  · obtain ⟨op, hop, h⟩ := Option.bind_eq_some_iff.1 h
    obtain ⟨⟨b, k⟩, hb, h⟩ := Option.bind_eq_some_iff.1 h
    cases h
    obtain ⟨hk, dest, hdest, hcode', htrail'⟩ := operand_recoded (.inl rfl) hb
    rw [List.length_drop] at hk
    refine ⟨by omega, ?_⟩
    have hv : a.encodeValue = .ok value := hvalue
    have hd : b.encodeDestination = .ok dest := hdest
    simp only [Instruction.cells, Instruction.basicCells, BasicOp.code_of_ofCode hop, hv, hd, hcode, hcode',
      Word.packBasic_fields, htrail, htrail', List.map_cons, List.take_add, List.map_append]

theorem first_cells {w : Word} {rest : List Word} {i : Instruction} {n : Nat} (h : first true w rest = (i, n)) :
    n ≤ rest.length ∧ i.cells = (w :: rest.take n).map .word := by
  unfold first at h
  cases hi : instruction? true w rest with
  | some p =>
    rw [hi, Option.getD_some] at h
    subst h
    exact instruction_cells hi
  | none =>
    rw [hi, Option.getD_none] at h
    cases h
    exact ⟨Nat.zero_le _, rfl⟩

end Decode

/-! ## Laying out plain words -/

namespace Draft

theorem placeAll_words (strict : Bool) (n : Nat) (ws : List Word) (d : Draft) :
    d.placeAll strict n (ws.map .word) = .ok { d with words := d.words ++ ws.toArray } := by
  induction ws generalizing d with
  | nil => simp [placeAll]
  | cons w ws ih => simp [placeAll, place, ih]

/-- A draft after one more instruction, which is made of plain words. -/
def appendWords (d : Draft) (ws : List Word) : Draft :=
  { d with words := d.words ++ ws.toArray, spans := d.spans.push ⟨d.spans.size, d.words.size, ws.length⟩ }

theorem appendWords_size (d : Draft) (ws : List Word) : (d.appendWords ws).words.size = d.words.size + ws.length := by
  simp [appendWords]

/-- An instruction of plain words is added unless it ends beyond memory. -/
theorem add_words {i : Instruction} {ws : List Word} (strict : Bool) (d : Draft) (h : i.cells = ws.map .word) :
    d.add strict i = if memorySize < d.words.size + ws.length then .error ⟨⟨d.spans.size, i, .tooLarge⟩, { d with words := d.words ++ ws.toArray }⟩
      else .ok (d.appendWords ws) := by
  have hsize : ((d.words.size + ws.length : Nat) : Int) - d.words.size = ws.length := by omega
  simp only [add, h, placeAll_words, Array.size_append, List.size_toArray, hsize, appendWords]

/-- Pieces that fit are laid out as they were cut. -/
theorem addAll_cut {address : Nat} {words : List Word} {ds : List Decoded} (strict : Bool)
    (cut : Decode.Cut true address words ds) :
    ∀ d : Draft, d.words.size = address → address + words.length ≤ memorySize →
      ∃ d', d.addAll strict (ds.map (·.instruction)) = .ok d' ∧ d'.words.toList = d.words.toList ++ words ∧
        d'.pending = d.pending := by
  induction cut with
  | nil => exact fun d _ _ => ⟨d, rfl, by simp, rfl⟩
  | @cons address w rest i n ds head tail ih =>
    intro d hd hfit
    obtain ⟨hn, hcells⟩ := Decode.first_cells head
    have hlen : (w :: rest.take n).length = n + 1 := by simp [hn]
    rw [List.length_cons] at hfit
    rw [List.map_cons, addAll, add_words strict d hcells, hd, hlen, if_neg (by omega)]
    obtain ⟨d', hok, hwords, hpending⟩ := ih (d.appendWords (w :: rest.take n))
      (by rw [appendWords_size, hd, hlen]; omega) (by rw [List.length_drop]; omega)
    refine ⟨d', hok, ?_, hpending⟩
    rw [hwords]
    simp [appendWords]

/-- The first piece that ends beyond memory is where the layout stops. -/
theorem addAll_cut_tooLarge {address : Nat} {words : List Word} {ds : List Decoded} (strict : Bool)
    (cut : Decode.Cut true address words ds) :
    ∀ d : Draft, d.words.size = address → address ≤ memorySize → memorySize < address + words.length →
      ∃ k x left, ds[k]? = some x ∧ memorySize < x.stop ∧
        (∀ j y, j < k → ds[j]? = some y → y.stop ≤ memorySize) ∧
        d.addAll strict (ds.map (·.instruction)) =
          .error ⟨⟨d.spans.size + k, x.instruction, .tooLarge⟩, left⟩ := by
  induction cut with
  | nil =>
    intro d _ h1 h2
    simp only [List.length_nil] at h2
    omega
  | @cons address w rest i n ds head tail ih =>
    intro d hd h1 h2
    obtain ⟨hn, hcells⟩ := Decode.first_cells head
    have hlen : (w :: rest.take n).length = n + 1 := by simp [hn]
    rw [List.length_cons] at h2
    rw [List.map_cons, addAll, add_words strict d hcells, hd, hlen]
    -- either this piece ends beyond memory, or it fits and the first that does not is in the tail
    by_cases hbig : memorySize < address + (n + 1)
    · rw [if_pos hbig]
      exact ⟨0, _, _, rfl, by simpa [Decoded.stop, hn] using hbig, fun j y hj => absurd hj (Nat.not_lt_zero j),
        rfl⟩
    · rw [if_neg hbig]
      obtain ⟨k, x, left, hx, hstop, hfirst, herr⟩ :=
        ih (d.appendWords (w :: rest.take n)) (by rw [appendWords_size, hd, hlen]; omega) (by omega)
          (by rw [List.length_drop]; omega)
      refine ⟨k + 1, x, left, hx, hstop, fun j y hj hy => ?_, ?_⟩
      · cases j with
        | zero =>
          cases hy
          simp only [Decoded.stop, hlen]
          omega
        | succ j => exact hfirst j y (by omega) hy
      · have hindex : (d.appendWords (w :: rest.take n)).spans.size + k = d.spans.size + (k + 1) := by
          simp only [appendWords, Array.size_push]
          omega
        simp only [herr, hindex]

end Draft

/-- Decoding an image and laying out what was found gives the same words again, if they fit in memory;
if not, it fails at the first instruction found that ends beyond memory. -/
theorem generate_decode (strict : Bool) (words : List Word) :
    (words.length ≤ memorySize →
      ∃ image, generate strict ((decode true words).map (·.instruction)) = .ok image ∧ image.words = words) ∧
    (memorySize < words.length →
      ∃ k d, (decode true words)[k]? = some d ∧ memorySize < d.stop ∧
        (∀ j x, j < k → (decode true words)[j]? = some x → x.stop ≤ memorySize) ∧
        generate strict ((decode true words).map (·.instruction)) = .error ⟨k, d.instruction, .tooLarge⟩) := by
  have cut := Decode.decode_cut true words
  generalize decode true words = ds at cut
  constructor
  · intro hfit
    obtain ⟨d, hok, hwords, hpending⟩ := Draft.addAll_cut strict cut {} rfl (by omega)
    refine ⟨d.image, ?_, by simpa [Draft.image] using hwords⟩
    simp [generate, layout, hok, hpending, Draft.patchAll]
  · intro hlong
    obtain ⟨k, d, left, hd, hstop, hfirst, herr⟩ :=
      Draft.addAll_cut_tooLarge strict cut {} rfl (Nat.zero_le _) (by omega)
    refine ⟨k, d, hd, hstop, hfirst, ?_⟩
    simp [generate, layout, herr]

/-- A reserved operation and a trailing word that the end cuts off, and one word more than memory holds. -/
theorem generate_decode_boundary :
    (∃ image, generate true ((decode true [0x0018, 0x7c01]).map (·.instruction)) = .ok image ∧
      image.words = [0x0018, 0x7c01]) ∧
    ∃ k d, (decode true (List.replicate 65537 1))[k]? = some d ∧ memorySize < d.stop ∧
      (∀ j x, j < k → (decode true (List.replicate 65537 1))[j]? = some x → x.stop ≤ memorySize) ∧
      generate true ((decode true (List.replicate 65537 1)).map (·.instruction)) =
        .error ⟨k, d.instruction, .tooLarge⟩ :=
  ⟨(generate_decode true [0x0018, 0x7c01]).1 (by decide),
    (generate_decode true (List.replicate 65537 1)).2 (by rw [List.length_replicate]; decide)⟩

end Dcpu16
