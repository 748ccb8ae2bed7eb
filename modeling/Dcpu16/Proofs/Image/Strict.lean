/-
A strict layout only refuses. If it succeeds it is the same as the other one, which accepts a label that is defined
twice. If only the other succeeds, the strict one stops at the first definition, in the order of the words, of a
name that has been defined before, and reports that name.
-/
import Mathlib.Data.List.Induction
import Dcpu16.Proofs.Image.Verdict

namespace Dcpu16

/-! ## Definitions in order -/

/-- The name that a data item defines. -/
def Datum.defined? : Datum → Option Text
  | .label name => some name
  | _ => none

/-- The names that an instruction defines, in order. -/
def Instruction.defined : Instruction → List Text
  | .label name => [name]
  | .data items => items.filterMap Datum.defined?
  | _ => []

/-- The names that a program defines, in order, each with the number of its instruction. -/
def definitionSites (program : List Instruction) : List (Text × Nat) :=
  program.zipIdx.flatMap fun p => p.1.defined.map (·, p.2)

theorem Datum.definitions_names (start : Nat) (xs : List Datum) :
    (definitions start xs).map (·.1) = xs.filterMap defined? := by
  induction xs generalizing start with
  | nil => rfl
  | cons x xs ih => cases x <;> simp [definitions, defined?, List.filterMap_cons, ih]

theorem Instruction.definitions_names (start : Nat) (i : Instruction) :
    (i.definitions start).map (·.1) = i.defined := by
  cases i with
  | data items => exact Datum.definitions_names start items
  | _ => rfl

theorem Instruction.cells_names (start : Nat) (i : Instruction) :
    (Cell.definitions start i.cells).map (·.1) = i.defined := by
  rw [definitions_cells, definitions_names]

theorem labelPositions_names (n start : Nat) (is : List Instruction) : (labelPositions start is).map (·.1) =
    ((is.zipIdx n).flatMap fun p => p.1.defined.map (·, p.2)).map (·.1) := by
  induction is generalizing n start with
  | nil => rfl
  | cons i is ih =>
    rw [labelPositions, List.map_append, Instruction.definitions_names, ih (n + 1), List.zipIdx_cons, List.flatMap_cons,
      List.map_append]
    simp [Function.comp_def]

/-- A list in which a key repeats has a first entry whose key has come before. -/
theorem exists_first_repeat {α β : Type} {f : α → β} {xs : List α} (h : ¬ (xs.map f).Nodup) :
    ∃ before x after, xs = before ++ x :: after ∧ (before.map f).Nodup ∧ f x ∈ before.map f := by
  induction xs using List.reverseRecOn with
  | nil => exact absurd List.nodup_nil h
  | append_singleton xs x ih =>
    by_cases hxs : (xs.map f).Nodup
    · refine ⟨xs, x, [], rfl, hxs, ?_⟩
      by_contra hx
      apply h
      rw [List.map_append, List.nodup_append]
      refine ⟨hxs, by simp, fun y hy z hz hyz => hx ?_⟩
      rw [← List.mem_singleton.1 hz, ← hyz]
      exact hy
    · obtain ⟨before, y, after, rfl, hbefore, hy⟩ := ih hxs
      exact ⟨before, y, after ++ [x], by simp, hbefore, hy⟩

/-- An entry of two lists put together is behind the first list or in it. -/
theorem append_eq_append_cons {α : Type} {xs ys before after : List α} {x : α} (h : xs ++ ys = before ++ x :: after) :
    (∃ mid, before = xs ++ mid ∧ ys = mid ++ x :: after) ∨ ∃ mid, xs = before ++ x :: mid := by
  rcases List.append_eq_append_iff.1 h with ⟨mid, hbefore, hys⟩ | ⟨mid, hxs, hrest⟩
  · exact .inl ⟨mid, hbefore, hys⟩
  · cases mid with
    | nil => exact .inl ⟨[], by simpa using hxs.symm, by simpa using hrest.symm⟩
    | cons y mid =>
      cases hrest
      exact .inr ⟨mid, hxs⟩

/-! ## A strict layout is a layout -/

namespace Draft

variable {d d' : Draft} {n : Nat}

/-- A strict definition of a new name is a definition, and that of a known one is refused. -/
theorem define_strict (d : Draft) (name : Text) : d.define true name =
    match d.labels.get? name with
    | none => d.define false name
    | some _ => .error ⟨if memorySize ≤ d.words.size then .tooLarge else .labelDuplicate name, d⟩ := by
  unfold define
  cases d.labels.get? name with
  | none => rfl
  | some old => by_cases hroom : memorySize ≤ d.words.size <;> simp [hroom]

theorem define_lax {name : Text} (h : d.define true name = .ok d') : d.define false name = .ok d' := by
  rw [define_strict] at h
  split at h
  · exact h
  · cases h

theorem place_lax {c : Cell} (h : d.place true n c = .ok d') : d.place false n c = .ok d' := by
  cases c with
  | define name => exact define_lax h
  | _ => exact h

theorem placeAll_lax {cs : List Cell} (h : d.placeAll true n cs = .ok d') : d.placeAll false n cs = .ok d' := by
  induction cs generalizing d with
  | nil => exact h
  | cons c cs ih =>
    rw [placeAll] at h ⊢
    split at h
    · rename_i d₁ hc
      rw [place_lax hc]
      exact ih h
    · cases h

theorem add_lax {i : Instruction} (h : d.add true i = .ok d') : d.add false i = .ok d' := by
  unfold add at h ⊢
  simp only at h ⊢
  split at h
  · cases h
  · rename_i d₁ hplace
    rw [placeAll_lax hplace]
    exact h

theorem addAll_lax {is : List Instruction} (h : d.addAll true is = .ok d') : d.addAll false is = .ok d' := by
  induction is generalizing d with
  | nil => exact h
  | cons i is ih =>
    rw [addAll] at h ⊢
    split at h
    · rename_i d₁ hi
      rw [add_lax hi]
      exact ih h
    · cases h

end Draft

/-! ## Where a strict layout stops -/

/-- Of names to be defined in order, those in `before` are new, and `name` is the first that is not. -/
def Table.FirstKnown (t : Table Word) (before : List Text) (name : Text) : Prop :=
  t.Fresh before ∧ (name ∈ before ∨ t.get? name ≠ none)

/-- It stays the first one when some of those before it have been defined. -/
theorem Table.FirstKnown.defineAll {t : Table Word} (ps : List (Text × Nat)) {before : List Text} {name : Text}
    (h : t.FirstKnown (ps.map (·.1) ++ before) name) :
    t.Fresh (ps.map (·.1)) ∧ (t.defineAll ps).FirstKnown before name := by
  obtain ⟨hfresh, hknown⟩ := h
  have hnames : ps.map (·.1) ++ before = (ps ++ before.map (fun x => (x, 0)) : List (Text × Nat)).map (·.1) := by
    simp [Function.comp_def]
  rw [hnames, fresh_append] at hfresh
  obtain ⟨hps, hbefore⟩ := hfresh
  refine ⟨hps, by simpa [Function.comp_def] using hbefore, ?_⟩
  rw [ne_eq, get?_defineAll_eq_none]
  rw [List.mem_append] at hknown
  tauto

namespace Draft

variable {d d' : Draft} {n : Nat}

theorem define_known {name : Text} (h : d.define false name = .ok d') (hknown : d.labels.get? name ≠ none) :
    d.define true name = .error ⟨.labelDuplicate name, d⟩ := by
  have hroom : ¬ memorySize ≤ d.words.size := by
    have hlow := (define_placed 0 h).low _ List.mem_cons_self
    exact Nat.not_le.2 hlow
  obtain ⟨old, hold⟩ := Option.ne_none_iff_exists'.1 hknown
  rw [define_strict, hold, if_neg hroom]

/-- The two layouts go together over new names, and part at the first one that is known. -/
theorem placeAll_known {cs : List Cell} {before after : List Text} {name : Text} (h : d.placeAll false n cs = .ok d')
    (hnames : (Cell.definitions d.words.size cs).map (·.1) = before ++ name :: after)
    (hfirst : d.labels.FirstKnown before name) :
    ∃ left, d.placeAll true n cs = .error ⟨.labelDuplicate name, left⟩ := by
  induction cs generalizing d before with
  | nil => simp [Cell.definitions] at hnames
  | cons c cs ih =>
    rw [placeAll] at h ⊢
    split at h
    · rename_i d₁ hc
      cases c with
      | word w =>
        cases hc
        exact ih h (by simpa [Cell.definitions] using hnames) hfirst
      | reference label =>
        cases hc
        exact ih h (by simpa [Cell.definitions] using hnames) hfirst
      | fault e => cases hc
      | define label =>
        rw [place] at hc ⊢
        have placed := define_placed n hc
        have hsize : d₁.words.size = d.words.size := by simpa [Cell.slots] using placed.size
        rw [Cell.definitions, List.map_cons, ← hsize] at hnames
        cases before with
        | nil =>
          cases hnames
          rw [define_known hc (hfirst.2.resolve_left List.not_mem_nil)]
          exact ⟨_, rfl⟩
        | cons x before =>
          obtain ⟨rfl, htail⟩ := List.cons.inj hnames
          obtain ⟨hfresh, hfirst⟩ := hfirst.defineAll [(label, d.words.size)]
          rw [define_strict, hfresh.2 label List.mem_cons_self]
          simp only [hc]
          exact ih h htail (placed.labels ▸ hfirst)
    · cases h

variable {i : Instruction}

/-- An instruction with new names only is added by both in the same way. -/
theorem add_fresh (h : d.add false i = .ok d') (hfresh : d.labels.Fresh i.defined) : d.add true i = .ok d' := by
  obtain ⟨⟨sound, low, -⟩, hroom⟩ := add_ok_iff.1 ⟨d', h⟩
  have haccepts : Accepts true d.labels d.words.size i.cells :=
    ⟨sound, low, fun _ => by rwa [Instruction.cells_names]⟩
  obtain ⟨d₁, hstrict⟩ := add_ok_iff.2 ⟨haccepts, hroom⟩
  rw [hstrict, ← add_lax hstrict, h]

theorem add_known {before after : List Text} {name : Text} (h : d.add false i = .ok d')
    (hnames : i.defined = before ++ name :: after) (hfirst : d.labels.FirstKnown before name) :
    ∃ left, d.add true i = .error ⟨⟨d.spans.size, i, .labelDuplicate name⟩, left⟩ := by
  obtain ⟨d₁, span, hplace, -⟩ := add_place h
  obtain ⟨left, herr⟩ := placeAll_known hplace ((i.cells_names _).trans hnames) hfirst
  exact ⟨left, by simp [add, herr]⟩

/-- The first definition of a known name is reported with the number of its instruction. -/
theorem addAll_known {is : List Instruction} {before after : List (Text × Nat)} {name : Text} {k : Nat}
    (h : d.addAll false is = .ok d')
    (hsites : (is.zipIdx d.spans.size).flatMap (fun p => p.1.defined.map (·, p.2)) = before ++ (name, k) :: after)
    (hfirst : d.labels.FirstKnown (before.map (·.1)) name) :
    ∃ i left, d.addAll true is = .error ⟨⟨k, i, .labelDuplicate name⟩, left⟩ := by
  induction is generalizing d before with
  | nil => simp at hsites
  | cons i is ih =>
    rw [addAll] at h ⊢
    split at h
    · rename_i d₁ hi
      have hnames : (i.defined.map (·, d.spans.size)).map (·.1) = i.defined := by simp [Function.comp_def]
      rw [List.zipIdx_cons, List.flatMap_cons] at hsites
      -- the definition stands behind those of `i`, or is one of them
      rcases append_eq_append_cons hsites with ⟨mid, rfl, hrest⟩ | ⟨mid, hdefined⟩
      · have laid := (add_laid hi).1
        have hlabels : d₁.labels = d.labels.defineAll (Cell.definitions d.words.size i.cells) := by
          simpa using laid.labels
        have hcount : d₁.spans.size = d.spans.size + 1 := laid.spans_size
        rw [List.map_append, hnames, ← i.cells_names d.words.size] at hfirst
        obtain ⟨hfresh, hfirst⟩ := hfirst.defineAll _
        rw [i.cells_names] at hfresh
        rw [add_fresh hi hfresh]
        exact ih h (by rw [hcount]; exact hrest) (hlabels ▸ hfirst)
      · have hk : k = d.spans.size := by
          have hmem : (name, k) ∈ i.defined.map (·, d.spans.size) := by simp [hdefined]
          obtain ⟨x, -, hx⟩ := List.mem_map.1 hmem
          exact (congrArg Prod.snd hx).symm
        have hdefs : i.defined = before.map (·.1) ++ name :: mid.map (·.1) := by
          rw [← hnames, hdefined, List.map_append, List.map_cons]
        obtain ⟨left, herr⟩ := add_known hi hdefs hfirst
        exact ⟨i, left, by rw [herr, hk]⟩
    · cases h

end Draft

/-! ## Images -/

theorem generate_lax {program : List Instruction} {image : Image} (h : generate true program = .ok image) :
    generate false program = .ok image := by
  obtain ⟨d, hd, rfl⟩ := generate_ok h
  obtain ⟨d₁, hadd, hpatch⟩ := layout_ok hd
  simp [generate, layout, Draft.addAll_lax hadd, hpatch]

/-- A strict layout succeeds exactly if the other does and no name is defined twice, and then with the same image. If
only the other does, it fails at the first definition of a name that has been defined before. -/
theorem generate_strict_iff (program : List Instruction) :
    (∀ image, generate true program = .ok image ↔
      generate false program = .ok image ∧ ((definitionSites program).map (·.1)).Nodup) ∧
    ∀ image, generate false program = .ok image → ¬ ((definitionSites program).map (·.1)).Nodup →
      ∃ before name n after i, definitionSites program = before ++ (name, n) :: after ∧
        (before.map (·.1)).Nodup ∧ name ∈ before.map (·.1) ∧ program[n]? = some i ∧
        generate true program = .error ⟨n, i, .labelDuplicate name⟩ := by
  have hnames : definedNames program = (definitionSites program).map (·.1) := labelPositions_names 0 0 program
  refine ⟨fun image => ⟨fun h => ⟨generate_lax h, ?_⟩, fun ⟨h, hnodup⟩ => ?_⟩, fun image h hrepeat => ?_⟩
  · obtain ⟨d, hd, -⟩ := generate_ok h
    obtain ⟨d₁, hadd, -⟩ := layout_ok hd
    rw [← hnames]
    exact (addAll_ok_iff_layable.1 ⟨d₁, hadd⟩).distinct rfl
  · obtain ⟨d, hd, rfl⟩ := generate_ok h
    obtain ⟨d₁, hadd, hpatch⟩ := layout_ok hd
    obtain ⟨encodable, fits, low, -⟩ := addAll_ok_iff_layable.1 ⟨d₁, hadd⟩
    rw [← hnames] at hnodup
    obtain ⟨d₂, hstrict⟩ := addAll_ok_iff_layable.2 (⟨encodable, fits, low, fun _ => hnodup⟩ : Layable true program)
    have hsame : d₁ = d₂ := Except.ok.inj (hadd.symm.trans (Draft.addAll_lax hstrict))
    simp [generate, layout, hstrict, ← hsame, hpatch]
  · obtain ⟨d, hd, -⟩ := generate_ok h
    obtain ⟨d₁, hadd, -⟩ := layout_ok hd
    obtain ⟨before, ⟨name, n⟩, after, hsites, hbefore, hname⟩ := exists_first_repeat hrepeat
    obtain ⟨i, left, herr⟩ := Draft.addAll_known hadd hsites ⟨Table.fresh_empty.2 hbefore, .inl hname⟩
    have hgenerate : generate true program = .error ⟨n, i, .labelDuplicate name⟩ := by simp [generate, layout, herr]
    exact ⟨before, name, n, after, i, hsites, hbefore, hname, (generate_error hgenerate).1, hgenerate⟩

/-- No name repeats in the first program. In the second, one repeats inside data and another behind it: it has an
image, and the strict layout reports the data. -/
theorem generate_strict_iff_data :
    let plain : List Instruction :=
      [.label (Text.ofString "a"), .data [.word 1, .label (Text.ofString "b"), .word 2],
        .special .jsr (.immediate (.label (Text.ofString "b")))]
    let data : Instruction := .data [.word 1, .label (Text.ofString "b"), .word 2, .label (Text.ofString "a")]
    let repeated : List Instruction := [.label (Text.ofString "a"), data, .label (Text.ofString "b")]
    (∃ image, generate true plain = .ok image ∧ image.words = [1, 2, 0x7c20, 1]) ∧
    (∃ image, generate false repeated = .ok image ∧ image.words = [1, 2]) ∧
    (∃ before after, definitionSites repeated = before ++ (Text.ofString "a", 1) :: after ∧
      (before.map (·.1)).Nodup ∧ Text.ofString "a" ∈ before.map (·.1)) ∧
    generate true repeated = .error ⟨1, data, .labelDuplicate (Text.ofString "a")⟩ := by
  intro plain data repeated
  have hplain : generate false plain = .ok ⟨[1, 2, 0x7c20, 1], ⟨[(Text.ofString "b", 1), (Text.ofString "a", 0)]⟩,
      [⟨0, 0, 0⟩, ⟨1, 0, 2⟩, ⟨2, 2, 2⟩]⟩ := rfl
  have hrepeated : generate false repeated = .ok ⟨[1, 2], ⟨[(Text.ofString "b", 2), (Text.ofString "a", 2)]⟩,
      [⟨0, 0, 0⟩, ⟨1, 0, 2⟩, ⟨2, 2, 0⟩]⟩ := rfl
  have herror : generate true repeated = .error ⟨1, data, .labelDuplicate (Text.ofString "a")⟩ := rfl
  refine ⟨⟨_, ((generate_strict_iff plain).1 _).2 ⟨hplain, by decide⟩, rfl⟩, ⟨_, hrepeated, rfl⟩, ?_, herror⟩
  obtain ⟨before, name, n, after, i, hsites, hnodup, hname, -, herr⟩ :=
    (generate_strict_iff repeated).2 _ hrepeated (by decide)
  rw [herror] at herr
  cases herr
  exact ⟨before, after, hsites, hnodup, hname⟩

end Dcpu16
