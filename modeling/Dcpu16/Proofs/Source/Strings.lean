/-
Strings in data declarations. An item that begins with a quote mark is accepted if it ends with one and what is between
them can be unescaped to valid UTF-8. Nothing looks for the end of the literal: a quote mark in the middle that is not escaped
is taken as text, so that two literals with no comma between them are one string. An item is one literal exactly if
the scan that splits the list is inside quotes from its first byte to its last.
-/
import Dcpu16.Proofs.Source.Accepted
import Dcpu16.Proofs.Text.Literal

namespace Dcpu16.Equates

variable [Evaluator] {e : Equates}

/-! ## Items -/

/-- What is accepted as a string. -/
theorem datum_string_iff {item t : Text} :
    e.datum item = .ok (.string t) ↔
      (∃ body, item = 34 :: (body ++ [34]) ∧ Text.Body (fun _ => True) body t) ∧ Utf8.valid t = true := by
  constructor
  · intro h
    unfold datum at h
    split at h
    · split at h
      · cases h
      · rename_i u hu
        obtain ⟨body, hmarks, hbody⟩ := Option.bind_eq_some_iff.1 hu
        split at h
        · rename_i hvalid
          cases h
          exact ⟨⟨body, Text.eq_of_between? hmarks, Text.unescape_eq_some_iff.1 hbody⟩, hvalid⟩
        · cases h
    · split at h <;> cases h
    · split at h <;> cases h
  · rintro ⟨⟨body, rfl, hbody⟩, hvalid⟩
    have hmarks : Text.between? (Text.ofString "\"") (Text.ofString "\"") (34 :: (body ++ [34])) = some body :=
      Text.between?_marks [34] body [34]
    rw [datum, hmarks, Option.bind_some, Text.unescape_eq_some_iff.2 hbody]
    simp only [hvalid, if_true]

/-- An item that begins with a quote mark is a string or nothing. -/
theorem datum_quote {item : Text} {d : Datum} (h : e.datum (34 :: item) = .ok d) : ∃ t, d = .string t := by
  rw [datum] at h
  split at h
  · cases h
  · split at h
    · cases h
      exact ⟨_, rfl⟩
    · cases h

theorem dataOnto_ok {acc ds : List Datum} {items : List Text} (h : e.dataOnto acc items = .ok ds) :
    ∃ more, ds = acc.reverse ++ more ∧ List.Forall₂ (fun item d => e.datum item = .ok d) items more := by
  induction items generalizing acc with
  | nil =>
    cases h
    exact ⟨[], (List.append_nil _).symm, .nil⟩
  | cons item items ih =>
    rw [dataOnto] at h
    split at h
    · rename_i d hd
      obtain ⟨more, rfl, hmore⟩ := ih h
      exact ⟨d :: more, by simp, .cons hd hmore⟩
    · cases h

/-! ## Declarations -/

/-- The items of a declaration that is accepted. Those that begin with a quote mark are strings, and end with a quote mark; the
bytes between are a body of plain bytes and known escapes, in which a quote mark counts as a plain byte. Such an
item is one literal if and only if the scan is inside quotes at all of its bytes but the first. -/
theorem data_string_literals (e : Equates) (operands : Text) (ds : List Datum) (h : e.data operands = .ok (.data ds)) :
    List.Forall₂ (fun item d =>
      (item.head? = some 34 ↔ ∃ t, d = .string t) ∧
      ∀ t, d = .string t →
        (∃ body, item = 34 :: (body ++ [34]) ∧ Text.Body (fun _ => True) body t) ∧ Utf8.valid t = true ∧
        (Text.IsLiteral item t ↔ Scan.Avoids Scan.outsideAt (Scan.step {} 34) item.tail))
      (Text.splitTop 44 operands) ds := by
  unfold data at h
  split at h
  · cases h
  · obtain ⟨items, hitems, heq⟩ := map_ok h
    cases heq
    obtain ⟨more, rfl, hall⟩ := dataOnto_ok hitems
    refine hall.imp fun item d hd => ⟨⟨?_, ?_⟩, ?_⟩
    · intro hhead
      obtain ⟨rest, rfl⟩ := List.head?_eq_some_iff.1 hhead
      exact datum_quote hd
    · rintro ⟨t, rfl⟩
      obtain ⟨⟨body, rfl, -⟩, -⟩ := datum_string_iff.1 hd
      rfl
    · rintro t rfl
      obtain ⟨⟨body, rfl, hbody⟩, hvalid⟩ := datum_string_iff.1 hd
      refine ⟨⟨body, rfl, hbody⟩, hvalid, ?_⟩
      rw [List.tail_cons]
      constructor
      · rintro ⟨other, heq, hclosed⟩
        cases List.append_cancel_right (List.cons.inj heq).2
        exact (hbody.closed_iff 0).1 hclosed
      · exact fun hinside => ⟨body, rfl, (hbody.closed_iff 0).2 hinside⟩

end Dcpu16.Equates

/-- Two items: a literal with a comma and an escaped quote mark in it, and two literals side by side. -/
theorem Dcpu16.Equates.data_string_literals_mixed :
    let _ : Evaluator := ⟨fun _ _ => none⟩
    let literal := Text.ofString "\"a,\\\"\""
    let adjacent := Text.ofString "\"b\" \"c\""
    let operands := Text.ofString "\"a,\\\"\", \"b\" \"c\""
    systemEquates.data operands =
      .ok (.data [.string (Text.ofString "a,\""), .string (Text.ofString "b\" \"c")]) ∧
    Text.splitTop 44 operands = [literal, adjacent] ∧
    Text.IsLiteral literal (Text.ofString "a,\"") ∧ ¬ Text.IsLiteral adjacent (Text.ofString "b\" \"c") := by
  intro _ literal adjacent operands
  have hdata : systemEquates.data operands =
      .ok (.data [.string (Text.ofString "a,\""), .string (Text.ofString "b\" \"c")]) := ok_of_toOption (by decide +kernel)
  have hsplit : Text.splitTop 44 operands = [literal, adjacent] := by decide +kernel
  have hall := data_string_literals systemEquates operands _ hdata
  rw [hsplit, List.forall₂_cons, List.forall₂_cons] at hall
  obtain ⟨⟨-, hliteral⟩, ⟨-, hadjacent⟩, -⟩ := hall
  refine ⟨hdata, hsplit, (hliteral _ rfl).2.2.2 ?_, fun h => ?_⟩
  · exact ⟨rfl, rfl, rfl, rfl, rfl, trivial⟩
  · -- the scan is outside quotes at the space
    obtain ⟨-, -, houtside, -⟩ := (hadjacent _ rfl).2.2.1 h
    cases houtside

/-- A source in which a comma is missing between two literals is accepted, with one string for both. -/
theorem Dcpu16.Assembler.parse_adjacent_literals :
    let _ : Evaluator := ⟨fun _ _ => none⟩
    let line := Text.ofString "DAT \"a\" \"b\""
    let item := Text.ofString "\"a\" \"b\""
    (({} : Assembler).parse ⟨line, none⟩).1.result =
      .ok ⟨[.data [.string (Text.ofString "a\" \"b")]], [1], [line]⟩ ∧
    Text.splitTop 44 item = [item] ∧ systemEquates.datum item = .ok (.string (Text.ofString "a\" \"b")) ∧
    ∀ t, ¬ Text.IsLiteral item t := by
  intro _ line item
  refine ⟨ok_of_toOption (by decide +kernel), by decide +kernel, ok_of_toOption (by decide +kernel), ?_⟩
  rintro t ⟨body, hitem, hbody⟩
  have hbytes : item = 34 :: ([97, 34, 32, 34, 98] ++ [34]) := by decide +kernel
  rw [hbytes] at hitem
  cases List.append_cancel_right (List.cons.inj hitem).2
  -- the second byte of the body is a quote mark
  cases hbody with
  | byte _ _ more =>
    cases more with
    | byte hquote => exact hquote rfl
