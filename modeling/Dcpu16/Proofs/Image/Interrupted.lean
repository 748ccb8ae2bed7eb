/-
Listings that are cut short. A listing is written line by line, so a sink that fails on some call has the lines before it
and nothing of the others, and the failure is what the listing ends with. What is decoded is well-formed and so is shown on
one line; if no label's name holds a line feed either, the calls are the lines of the text.
-/
import Dcpu16.Proofs.Image.Encodable
import Dcpu16.Proofs.Image.Listing
import Dcpu16.Proofs.Instruction.Spelled
import Dcpu16.Proofs.Source.Input

namespace Dcpu16

/-! ## What is decoded is well-formed -/

theorem Register.valid_of_isPointer {r : Register} (h : r.isPointer = true) : r.valid = true := by
  cases r with
  | invalid n => cases h
  | _ => rfl

/-- An operand that can be encoded and refers to no label is well-formed. -/
theorem Operand.wellFormed_of_encodable {p : Decode.Position} {o : Operand} (h : (p.takes o && o.encodable) = true)
    (hreferences : o.references = []) : o.wellFormed = true := by
  have hnumber : ∀ l : Literal, l.references = [] → l.wellFormed = true ∧ l.isKeyword = false := by
    rintro (w | name) hl
    · exact ⟨rfl, rfl⟩
    · cases hl
  rw [Bool.and_eq_true] at h
  cases o with
  | missing | foreign r => cases p <;> cases h.1
  | register r => exact h.2
  | indirect r => exact Register.valid_of_isPointer h.2
  | offset r l => rw [wellFormed, Register.valid_of_isPointer h.2, (hnumber l hreferences).1]; rfl
  | memory l => exact (hnumber l hreferences).1
  | immediate l =>
    obtain ⟨hl, hkeyword⟩ := hnumber l hreferences
    rw [wellFormed, hl, hkeyword]
    rfl
  | push | pop => rfl

namespace Decode

theorem operand_wellFormed {canonical : Bool} {p : Position} {code : Word} {rest : List Word} {o : Operand} {n : Nat}
    (h : operand canonical p code rest = some (o, n)) : p.takes o = true ∧ o.wellFormed = true := by
  by_cases hcode : code = 0x1f
  · subst hcode
    obtain ⟨rfl, w, more, -, rfl, -, -⟩ := operand_nextLiteral h
    exact ⟨rfl, rfl⟩
  · -- what encodes back to the words that were read refers to no label
    obtain ⟨-, f, hf, -, htrailing⟩ := operand_recoded (.inr fun hfolds => hcode hfolds.1) h
    have hok := encode_ok_iff.1 ⟨f, hf⟩
    have hreferences := Field.references_trailing hf 0 0
    rw [htrailing, Cell.references_words] at hreferences
    exact ⟨(Bool.and_eq_true_iff.1 hok).1, Operand.wellFormed_of_encodable hok (List.map_eq_nil_iff.1 hreferences.symm)⟩

theorem first_wellFormed {canonical : Bool} {w : Word} {rest : List Word} {i : Instruction} {n : Nat}
    (h : first canonical w rest = (i, n)) : i.wellFormed = true := by
  have hbasic : ∀ op ∈ BasicOp.all, op.valid = true := by decide
  have hspecial : ∀ op ∈ SpecialOp.all, op.valid = true := by decide
  unfold first at h
  cases hi : instruction? canonical w rest with
  | none =>
    rw [hi] at h
    cases h
    rfl
  | some found =>
    rw [hi] at h
    cases h
    unfold instruction? at hi
    obtain ⟨⟨a, m⟩, ha, hi⟩ := Option.bind_eq_some_iff.1 hi
    obtain ⟨hvalue, hawf⟩ := operand_wellFormed ha
    have hvalue : a.isValue = true := hvalue
    simp only at hi
    split at hi
    · obtain ⟨op, hop, hi⟩ := Option.bind_eq_some_iff.1 hi
      cases hi
      simp [Instruction.wellFormed, hspecial op (List.mem_of_find?_eq_some hop), hvalue, hawf]
    · obtain ⟨op, hop, hi⟩ := Option.bind_eq_some_iff.1 hi
      obtain ⟨⟨b, k⟩, hb, hi⟩ := Option.bind_eq_some_iff.1 hi
      obtain ⟨hdestination, hbwf⟩ := operand_wellFormed hb
      have hdestination : b.isDestination = true := hdestination
      cases hi
      simp [Instruction.wellFormed, hbasic op (List.mem_of_find?_eq_some hop), hvalue, hawf, hdestination, hbwf]

theorem Cut.wellFormed {canonical : Bool} {address : Nat} {words : List Word} {ds : List Decoded}
    (cut : Cut canonical address words ds) : ∀ d ∈ ds, d.instruction.wellFormed = true := by
  induction cut with
  | nil => simp
  | cons head _ ih => exact List.forall_mem_cons.2 ⟨first_wellFormed head, ih⟩

end Decode

/-! ## Lines of the text -/

theorem Text.not_mem_join {x : UInt8} {sep : Text} {ts : List Text} (hsep : x ∉ sep) (h : ∀ t ∈ ts, x ∉ t) :
    x ∉ join sep ts := by
  cases ts with
  | nil => exact List.not_mem_nil
  | cons t ts =>
    rw [join, List.mem_append, List.mem_flatMap, not_or]
    refine ⟨h t List.mem_cons_self, ?_⟩
    rintro ⟨u, hu, hmem⟩
    rcases List.mem_append.1 hmem with hmem | hmem
    · exact hsep hmem
    · exact h u (List.mem_cons_of_mem _ hu) hmem

namespace Listing

/-- A line feed ends a line, and stands nowhere else in it unless it is in the name of a label. -/
theorem Line.exists_body {l : Line} (hlabel : ∀ name, l = .label name → (10 : UInt8) ∉ name)
    (hrow : ∀ d, l = .row d → d.instruction.wellFormed = true) : ∃ body, l.render = body ++ [10] ∧ (10 : UInt8) ∉ body := by
  cases l with
  | label name =>
    refine ⟨58 :: name, rfl, ?_⟩
    rw [List.mem_cons, not_or]
    exact ⟨by decide, hlabel name rfl⟩
  | row d =>
    have hwf := hrow d rfl
    have hdigit : ∀ n < 16, Numeral.digit n ≠ 10 := by decide
    have hinstruction := ((Instruction.spelled_render hwf).tidy hwf).oneLine
    have hcolumn : (10 : UInt8) ∉ Text.join (Text.ofString " ") (d.words.map Numeral.hexWord) := by
      refine Text.not_mem_join (by decide) ?_
      intro t ht
      obtain ⟨w, -, rfl⟩ := List.mem_map.1 ht
      exact Numeral.not_mem_hexWord hdigit w
    have hpad : (10 : UInt8) ∉ pad 14 (Text.join (Text.ofString " ") (d.words.map Numeral.hexWord)) := by
      rw [pad, List.mem_append, not_or]
      exact ⟨hcolumn, fun hmem => absurd (List.eq_of_mem_replicate hmem) (by decide)⟩
    refine ⟨_, rfl, ?_⟩
    simp only [List.mem_append, not_or]
    exact ⟨⟨⟨⟨⟨by decide, Numeral.not_mem_hex hdigit 4 d.address⟩, by decide⟩, hpad⟩, by decide⟩, hinstruction⟩

theorem mem_lines_label {words : List Word} {labels : Table Word} {name : Text} (h : Line.label name ∈ lines words labels) :
    ∃ x, (name, x) ∈ labels.entries := by
  have hname : name ∈ (linesFrom labels.symbols (decode false words)).filterMap (·.shown.name?) :=
    List.mem_filterMap.2 ⟨.label name, h, rfl⟩
  rw [names_linesFrom] at hname
  obtain ⟨s, hs, rfl⟩ := List.mem_map.1 hname
  exact ⟨s.2, labels.symbols_perm.subset hs⟩

theorem mem_lines_row {words : List Word} {labels : Table Word} {d : Decoded} (h : Line.row d ∈ lines words labels) :
    d ∈ decode false words := by
  have hrow : d ∈ (linesFrom labels.symbols (decode false words)).filterMap Line.row? :=
    List.mem_filterMap.2 ⟨.row d, h, rfl⟩
  rwa [rows_linesFrom] at hrow

/-- If no name holds a line feed, the lines of a listing are the lines of its text. -/
theorem split_text {words : List Word} {labels : Table Word} (h : ∀ entry ∈ labels.entries, (10 : UInt8) ∉ entry.1) :
    (Input.split (text words labels)).map (· ++ [10]) = (lines words labels).map Line.render := by
  have hbodies : ∀ ls : List Line, (∀ l ∈ ls, ∃ body, l.render = body ++ [10] ∧ (10 : UInt8) ∉ body) →
      ∃ bodies : List Text, ls.map Line.render = bodies.map (· ++ [10]) ∧ ∀ body ∈ bodies, (10 : UInt8) ∉ body := by
    intro ls hls
    induction ls with
    | nil => exact ⟨[], rfl, by simp⟩
    | cons l ls ih =>
      obtain ⟨body, hl, hbody⟩ := hls l List.mem_cons_self
      obtain ⟨bodies, hmap, hall⟩ := ih fun x hx => hls x (List.mem_cons_of_mem _ hx)
      exact ⟨body :: bodies, by rw [List.map_cons, List.map_cons, hl, hmap], List.forall_mem_cons.2 ⟨hbody, hall⟩⟩
  obtain ⟨bodies, hmap, hall⟩ := hbodies (lines words labels) fun l hl => by
    refine Line.exists_body ?_ ?_
    · rintro name rfl
      obtain ⟨x, hx⟩ := mem_lines_label hl
      exact h (name, x) hx
    · rintro d rfl
      exact (Decode.decode_cut false words).wellFormed d (mem_lines_row hl)
  have htext : text words labels = bodies.flatMap (· ++ [10]) := by
    rw [text, Sink.text, (write_never words labels).2, hmap, List.flatMap_def]
  rw [htext, Input.split_lines hall, hmap]

end Listing

/-! ## Writing until a failure -/

/-- A new sink that fails on call number `n`. -/
theorem Sink.writeAll_failing {n : Nat} (hn : 1 ≤ n) (ts : List Text) :
    ({ failAt := n } : Sink).writeAll ts =
      if n ≤ ts.length then (.error {}, { failAt := n, calls := n, written := (ts.take (n - 1)).toArray })
      else (.ok (), { failAt := n, calls := ts.length, written := ts.toArray }) := by
  rw [writeAll_eq]
  simp only [Nat.zero_add, Nat.sub_zero, Array.empty_append]
  by_cases hle : n ≤ ts.length
  · rw [if_pos ⟨hn, hle⟩, if_pos hle]
  · rw [if_neg fun h => hle h.2, if_neg hle]

namespace Listing

/-- A listing on a sink that fails on call number `n`. If the whole listing has that many lines, the listing ends with the
sink's failure, the lines before it are written and nothing else is, and there is no call after the failure; otherwise
all of the listing is written. The lines of the whole listing make up its text, and are the lines of the text if no name
holds a line feed. -/
theorem write_interrupted (words : List Word) (labels : Table Word) (n : Nat) (hn : 1 ≤ n) :
    let whole := (write words labels {}).2.written.toList
    (write words labels {}).1 = .ok () ∧ whole.flatten = text words labels ∧
    ((∀ entry ∈ labels.entries, (10 : UInt8) ∉ entry.1) → whole = (Input.split (text words labels)).map (· ++ [10])) ∧
    (n ≤ whole.length → ∃ s : Sink, write words labels { failAt := n } = (.error {}, s) ∧
      s.written.toList = whole.take (n - 1) ∧ s.calls = n) ∧
    (whole.length < n → ∃ s : Sink, write words labels { failAt := n } = (.ok (), s) ∧ s.written.toList = whole) := by
  obtain ⟨hok, hwhole⟩ := write_never words labels
  have hfailing := Sink.writeAll_failing hn ((lines words labels).map Line.render)
  rw [← write_eq] at hfailing
  rw [hwhole]
  refine ⟨hok, ?_, ?_, ?_, ?_⟩
  · rw [text, Sink.text, hwhole]
  · exact fun hnames => (split_text hnames).symm
  · intro hle
    rw [if_pos hle] at hfailing
    exact ⟨_, hfailing, rfl, rfl⟩
  · intro hlt
    rw [if_neg (Nat.not_le.2 hlt)] at hfailing
    exact ⟨_, hfailing, rfl⟩

/-- Failures on the last line, which is a label behind the image, and on the call after it. -/
theorem write_interrupted_last :
    let words : List Word := [0x7c01, 0x1234, 0x0401]
    let labels : Table Word := Table.ofList [(Text.ofString "far", 9), (Text.ofString "mid", 1)]
    (∃ s : Sink, write words labels { failAt := 4 } = (.error {}, s) ∧ s.calls = 4 ∧
      s.written.toList = [Text.ofString ":mid\n", Text.ofString "0x0000: 7c01 1234       SET A, 0x1234\n",
        Text.ofString "0x0002: 0401            SET A, B\n"]) ∧
    ∃ s : Sink, write words labels { failAt := 5 } = (.ok (), s) ∧ s.text = text words labels := by
  intro words labels
  have hsymbols : labels.symbols = [(Text.ofString "mid", 1), (Text.ofString "far", 9)] :=
    (labels.symbols_perm.trans (by decide +kernel)).eq_of_pairwise (fun x y _ _ => symbolLe_antisymm)
      labels.symbols_sorted (by decide +kernel)
  have hwhole : (write words labels {}).2.written.toList = [Text.ofString ":mid\n",
      Text.ofString "0x0000: 7c01 1234       SET A, 0x1234\n", Text.ofString "0x0002: 0401            SET A, B\n",
      Text.ofString ":far\n"] := by
    rw [write_eq, lines, hsymbols]
    decide +kernel
  obtain ⟨-, -, -, hfails, -⟩ := write_interrupted words labels 4 (by decide)
  obtain ⟨-, htext, -, -, hall⟩ := write_interrupted words labels 5 (by decide)
  constructor
  · obtain ⟨s, hs, hwritten, hcalls⟩ := hfails (by rw [hwhole]; decide)
    rw [hwhole] at hwritten
    exact ⟨s, hs, hcalls, hwritten⟩
  · obtain ⟨s, hs, hwritten⟩ := hall (by rw [hwhole]; decide)
    exact ⟨s, hs, by rw [Sink.text, hwritten, htext]⟩

end Listing

end Dcpu16
