/-
Bodies of literals. What unescaping accepts is a text of plain bytes and known escapes, and what it gives is the text
that these stand for. It does not look at quote marks: whether a body ends where the quotes do is seen by the scan, which
is outside quotes behind the first quote mark that is not escaped.
-/
import Dcpu16.Proofs.Text.Written

namespace Dcpu16

namespace Text

/-! ## Escapes -/

/-- The bytes that can follow a backslash, with the bytes that they stand for: a line feed, a tab, a carriage return, an
escape, a null, and the marks that stand for themselves. -/
def escapes : List (UInt8 × UInt8) :=
  [(byte 'n', 10), (byte 't', 9), (byte 'r', 13), (byte 'e', 27), (byte '0', 0), (byte '\\', byte '\\'), (byte '"', byte '"'),
    (byte '\'', byte '\'')]

theorem escaped?_eq_some_iff {b x : UInt8} : escaped? b = some x ↔ (b, x) ∈ escapes := by
  have hknown : ∀ b, (escaped? b).all (fun x => escapes.contains (b, x)) = true :=
    forall_byte (p := fun b => (escaped? b).all (fun x => escapes.contains (b, x)) = true) (by decide +kernel)
  have hall : escapes.all (fun entry => escaped? entry.1 == some entry.2) = true := by decide
  constructor
  · intro h
    have hb := hknown b
    rw [h] at hb
    exact List.contains_iff_mem.1 hb
  · intro h
    exact eq_of_beq (List.all_eq_true.1 hall (b, x) h)

/-! ## Bodies -/

/-- A body with the text that it stands for: bytes that stand for themselves, which are no backslash and all of a certain
kind, and known escapes. -/
inductive Body (plain : UInt8 → Prop) : Text → Text → Prop
  | nil : Body plain [] []
  | byte {b : UInt8} {body t : Text} (hplain : plain b) (hne : b ≠ 92) (more : Body plain body t) :
      Body plain (b :: body) (b :: t)
  | escape {b x : UInt8} {body t : Text} (hx : (b, x) ∈ escapes) (more : Body plain body t) :
      Body plain (92 :: b :: body) (x :: t)

theorem Body.unescapeOnto_eq {body t : Text} (h : Body (fun _ => True) body t) (acc : Text) :
    unescapeOnto acc body = some (t.reverse ++ acc) := by
  induction h generalizing acc with
  | nil => rfl
  | @byte b body t _ hne _ ih =>
    have hstep : unescapeOnto acc (b :: body) = unescapeOnto (b :: acc) body := by
      rw [unescapeOnto]
      · exact fun he => absurd he hne
      · exact fun _ _ he => absurd he hne
    rw [hstep, ih, List.reverse_cons, List.append_assoc]
    rfl
  | escape hx _ ih =>
    rw [unescapeOnto, escaped?_eq_some_iff.2 hx]
    simp only
    rw [ih, List.reverse_cons, List.append_assoc]
    rfl

theorem body_of_unescapeOnto {acc body u : Text} (h : unescapeOnto acc body = some u) :
    ∃ t, Body (fun _ => True) body t ∧ u = t.reverse ++ acc := by
  fun_induction unescapeOnto acc body with
  | case1 acc =>
    cases h
    exact ⟨[], .nil, rfl⟩
  | case2 => cases h
  | case3 acc b body x hx ih =>
    obtain ⟨t, ht, rfl⟩ := ih h
    exact ⟨x :: t, .escape (escaped?_eq_some_iff.1 hx) ht, by simp⟩
  | case4 => cases h
  | case5 acc b body hlast hmore ih =>
    obtain ⟨t, ht, rfl⟩ := ih h
    refine ⟨b :: t, .byte trivial ?_ ht, by simp⟩
    rintro rfl
    cases body with
    | nil => exact hlast rfl rfl
    | cons c body => exact hmore c body rfl rfl

theorem unescape_eq_some_iff {body t : Text} : unescape body = some t ↔ Body (fun _ => True) body t := by
  constructor
  · intro h
    obtain ⟨u, hu, rfl⟩ := Option.map_eq_some_iff.1 h
    obtain ⟨t, ht, rfl⟩ := body_of_unescapeOnto hu
    rw [List.append_nil, List.reverse_reverse]
    exact ht
  · intro h
    rw [unescape, h.unescapeOnto_eq]
    simp

end Text

/-! ## Where the quotes end -/

/-- A byte outside quotes. -/
def Scan.outsideAt (s : Scan) (_ : UInt8) : Bool := s.outside

namespace Text

/-- One literal: a quote mark, a body without a quote mark that is not escaped, and a quote mark at the end. -/
def IsLiteral (item t : Text) : Prop := ∃ body, item = 34 :: (body ++ [34]) ∧ Body (· ≠ 34) body t

/-- A body holds no quote mark that is not escaped exactly if the scan is inside the quotes up to the one at the end. -/
theorem Body.closed_iff {body t : Text} (h : Body (fun _ => True) body t) (depth : Int) :
    Body (· ≠ 34) body t ↔ Scan.Avoids Scan.outsideAt (Scan.inString depth) (body ++ [34]) := by
  induction h with
  | nil => exact ⟨fun _ => ⟨rfl, trivial⟩, fun _ => .nil⟩
  | @byte b body t _ hne _ ih =>
    have hstep : b ≠ 34 → (Scan.inString depth).step b = Scan.inString depth := by
      intro hb
      have hback : b ≠ Text.byte '\\' := hne
      simp [Scan.step, Scan.inString, hback, hb]
    constructor
    · intro hclosed
      cases hclosed with
      | byte hb _ more =>
        refine ⟨rfl, ?_⟩
        rw [hstep hb]
        exact ih.1 more
      | escape _ _ => exact absurd rfl hne
    · rintro ⟨-, hrest⟩
      have hb : b ≠ 34 := by
        rintro rfl
        -- the scan is outside behind the quote mark, and there is one more byte
        cases body with
        | nil => cases hrest.1
        | cons c body => cases hrest.1
      rw [hstep hb] at hrest
      exact .byte hb hne (ih.2 hrest)
  | @escape b x body t hx _ ih =>
    constructor
    · intro hclosed
      cases hclosed with
      | byte _ hne _ => exact absurd rfl hne
      | escape _ more => exact ⟨rfl, rfl, ih.1 more⟩
    · rintro ⟨-, -, hrest⟩
      exact .escape hx (ih.2 hrest)

end Text

end Dcpu16
