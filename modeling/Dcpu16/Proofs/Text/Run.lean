/-
White space in runs. No white space character begins or ends another, and none begins in the middle of a text
and ends in the white space after it; so a run of them is dropped whole, trimming does not see the white space
around a text, whatever the text is, and a word without white space is cut off in front of it. A list is split into the
same parts whether or not it was trimmed.
-/
import Dcpu16.Proofs.Text.Scan

namespace Dcpu16.Text

/-! ## Forms one after the other -/

/-- No form begins another. -/
def PrefixFree (forms : List Text) : Prop := ∀ f ∈ forms, ∀ g ∈ forms, f <+: g → f = g

theorem blankForms_prefixFree : PrefixFree blankForms := by
  unfold PrefixFree
  decide +kernel

theorem blankFormsReversed_prefixFree : PrefixFree blankFormsReversed := by
  unfold PrefixFree
  decide +kernel

section Forms

variable {forms : List Text}

theorem formLength_form (hfree : PrefixFree forms) {f : Text} (hf : f ∈ forms) (t : Text) :
    formLength forms (f ++ t) = f.length := by
  have hpre : f.isPrefixOf (f ++ t) = true := List.isPrefixOf_iff_prefix.2 (List.prefix_append f t)
  unfold formLength
  cases h : forms.find? (·.isPrefixOf (f ++ t)) with
  | none => exact absurd hpre (List.find?_eq_none.1 h f hf)
  | some g =>
    have hg := List.mem_of_find?_eq_some h
    have hgpre : g <+: f ++ t := by simpa using List.find?_some h
    rcases List.prefix_or_prefix_of_prefix hgpre (List.prefix_append f t) with hgf | hfg
    · exact congrArg List.length (hfree g hg f hf hgf)
    · exact congrArg List.length (hfree f hf g hg hfg).symm

theorem dropForms_skip (x t : Text) : dropForms forms x.length (x ++ t) = dropForms forms 0 t := by
  induction x with
  | nil => rfl
  | cons b x ih =>
    rw [List.length_cons, List.cons_append, dropForms]
    exact ih

theorem ne_nil_of_headsNotSolid (hheads : headsNotSolid forms = true) {f : Text} (hf : f ∈ forms) : f ≠ [] := by
  rintro rfl
  have hhead := List.all_eq_true.1 hheads [] hf
  simp at hhead

theorem dropForms_form (hfree : PrefixFree forms) (hheads : headsNotSolid forms = true) {f : Text} (hf : f ∈ forms)
    (t : Text) : dropForms forms 0 (f ++ t) = dropForms forms 0 t := by
  obtain ⟨b, x, rfl⟩ := List.exists_cons_of_ne_nil (ne_nil_of_headsNotSolid hheads hf)
  have hlength := formLength_form hfree hf t
  rw [List.cons_append] at hlength ⊢
  rw [dropForms, hlength]
  exact dropForms_skip x t

theorem dropForms_run (hfree : PrefixFree forms) (hheads : headsNotSolid forms = true) :
    ∀ {fs : List Text}, (∀ f ∈ fs, f ∈ forms) → ∀ t, dropForms forms 0 (fs.flatten ++ t) = dropForms forms 0 t
  | [], _, _ => rfl
  | f :: fs, h, t => by
    rw [List.flatten_cons, List.append_assoc, dropForms_form hfree hheads (h f List.mem_cons_self),
      dropForms_run hfree hheads fun g hg => h g (List.mem_cons_of_mem _ hg)]

/-- What is dropped is a run of forms. -/
theorem exists_run (forms : List Text) (t : Text) :
    ∃ fs : List Text, (∀ f ∈ fs, f ∈ forms) ∧ t = fs.flatten ++ dropForms forms 0 t := by
  -- each form that is dropped leaves a shorter text
  induction hn : t.length using Nat.strongRecOn generalizing t with
  | ind n ih =>
    cases t with
    | nil => exact ⟨[], by simp, rfl⟩
    | cons b t =>
      rw [dropForms]
      split
      · exact ⟨[], by simp, rfl⟩
      · rename_i k hk
        unfold formLength at hk
        cases hfind : forms.find? (·.isPrefixOf (b :: t)) with
        | none => simp [hfind] at hk
        | some f =>
          simp only [hfind] at hk
          have hpre : f <+: b :: t := by simpa using List.find?_some hfind
          obtain ⟨rest, hrest⟩ := hpre
          obtain ⟨x, f', rfl⟩ := List.exists_cons_of_length_eq_add_one hk
          rw [List.cons_append, List.cons.injEq] at hrest
          obtain ⟨rfl, rfl⟩ := hrest
          rw [List.length_cons, Nat.add_right_cancel_iff] at hk
          have hshorter : rest.length < n := by
            rw [← hn, List.length_cons, List.length_append]
            omega
          obtain ⟨fs, hfs, heq⟩ := ih rest.length hshorter rest rfl
          refine ⟨(x :: f') :: fs, ?_, ?_⟩
          · intro g hg
            rcases List.mem_cons.1 hg with rfl | hg
            · exact List.mem_of_find?_eq_some hfind
            · exact hfs g hg
          · rw [← hk, dropForms_skip, List.flatten_cons, List.append_assoc, ← heq]
            rfl

end Forms

/-! ## Runs of white space -/

/-- A byte that is no quote mark or bracket, starts no comment and separates nothing. -/
def isQuiet (b : UInt8) : Bool := Scan.isPlain b && b != 59 && b != 44 && b != 43 && b != 45

theorem plain_of_quiet {t : Text} (h : ∀ b ∈ t, isQuiet b = true) : ∀ b ∈ t, Scan.isPlain b = true := by
  intro b hb
  have hquiet := h b hb
  simp only [isQuiet, Bool.and_eq_true] at hquiet
  exact hquiet.1.1.1.1

theorem not_mem_of_quiet {t : Text} (h : ∀ b ∈ t, isQuiet b = true) {x : UInt8} (hx : isQuiet x = false) : x ∉ t := by
  intro hmem
  rw [h x hmem] at hx
  cases hx

theorem quiet_append {t u : Text} (ht : ∀ b ∈ t, isQuiet b = true) (hu : ∀ b ∈ u, isQuiet b = true) :
    ∀ b ∈ t ++ u, isQuiet b = true := List.forall_mem_append.2 ⟨ht, hu⟩

theorem part_of_quiet {sep : UInt8} {t : Text} (hsep : isQuiet sep = false) (h : ∀ b ∈ t, isQuiet b = true) : Part sep t :=
  ⟨Scan.run_plain (plain_of_quiet h) 0, Scan.avoids_separator (not_mem_of_quiet h hsep) _⟩

/-- White space characters, one after the other. -/
def IsBlank (t : Text) : Prop := ∃ cs : List Char, (∀ c ∈ cs, c ∈ blanks) ∧ t = cs.flatMap Utf8.encode

theorem isBlank_iff {t : Text} : IsBlank t ↔ ∃ fs : List Text, (∀ f ∈ fs, f ∈ blankForms) ∧ t = fs.flatten := by
  constructor
  · rintro ⟨cs, hcs, rfl⟩
    refine ⟨cs.map Utf8.encode, ?_, (List.flatMap_def ..)⟩
    intro f hf
    obtain ⟨c, hc, rfl⟩ := List.mem_map.1 hf
    exact List.mem_map.2 ⟨c, hcs c hc, rfl⟩
  · rintro ⟨fs, hfs, rfl⟩
    induction fs with
    | nil => exact ⟨[], by simp, rfl⟩
    | cons f fs ih =>
      obtain ⟨cs, hcs, heq⟩ := ih fun g hg => hfs g (List.mem_cons_of_mem _ hg)
      obtain ⟨c, hc, rfl⟩ := List.mem_map.1 (hfs f List.mem_cons_self)
      refine ⟨c :: cs, ?_, by rw [List.flatten_cons, heq, List.flatMap_cons]⟩
      intro d hd
      rcases List.mem_cons.1 hd with rfl | hd
      · exact hc
      · exact hcs d hd

namespace IsBlank

theorem nil : IsBlank [] := ⟨[], by simp, rfl⟩

theorem of_chars (cs : List Char) (h : cs.all blanks.contains = true) : IsBlank (cs.flatMap Utf8.encode) :=
  ⟨cs, fun c hc => List.contains_iff_mem.1 (List.all_eq_true.1 h c hc), rfl⟩

theorem append {r s : Text} (hr : IsBlank r) (hs : IsBlank s) : IsBlank (r ++ s) := by
  obtain ⟨cs, hcs, rfl⟩ := hr
  obtain ⟨ds, hds, rfl⟩ := hs
  refine ⟨cs ++ ds, ?_, List.flatMap_append.symm⟩
  intro c hc
  rcases List.mem_append.1 hc with hc | hc
  · exact hcs c hc
  · exact hds c hc

/-- A run begins with no byte that goes on with a character. -/
theorem head_not_trail {r : Text} (hr : IsBlank r) : ∀ b ∈ r.head?, (Utf8.trail? b).isNone = true := by
  have hall : ∀ f ∈ blankForms, ∀ b ∈ f.head?, (Utf8.trail? b).isNone = true := by decide +kernel
  obtain ⟨fs, hfs, rfl⟩ := isBlank_iff.1 hr
  cases fs with
  | nil => simp
  | cons f fs =>
    have hf := hfs f List.mem_cons_self
    obtain ⟨x, f', rfl⟩ := List.exists_cons_of_ne_nil (ne_nil_of_headsNotSolid blankForms_heads hf)
    exact fun b hb => hall (x :: f') hf b hb

/-- Nor does what it comes before, if it is not empty. -/
theorem head_append {r : Text} (hr : IsBlank r) (hne : r ≠ []) (t : Text) :
    ∀ b ∈ (r ++ t).head?, (Utf8.trail? b).isNone = true := by
  obtain ⟨b, more, rfl⟩ := List.exists_cons_of_ne_nil hne
  exact hr.head_not_trail

/-- No byte of a run is one that a scan looks at. -/
theorem quiet {r : Text} (hr : IsBlank r) : ∀ b ∈ r, isQuiet b = true := by
  have hall : blanks.all (fun c => (Utf8.encode c).all isQuiet) = true := by decide +kernel
  obtain ⟨cs, hcs, rfl⟩ := hr
  intro b hb
  obtain ⟨c, hc, hb⟩ := List.mem_flatMap.1 hb
  exact List.all_eq_true.1 (List.all_eq_true.1 hall c (hcs c hc)) b hb

end IsBlank

/-- White space around a part leaves it a part. -/
theorem Part.around {sep : UInt8} (hsep : isQuiet sep = false) {x y t : Text} (hx : IsBlank x) (hy : IsBlank y)
    (h : Part sep t) : Part sep (x ++ (t ++ y)) :=
  (part_of_quiet hsep hx.quiet).append (h.append (part_of_quiet hsep hy.quiet))

/-! ## Trimming -/

/-- A form that is not at the front is not put there by what comes after, unless this goes on with a character. -/
theorem formLength_append {t u : Text} (ht : t ≠ []) (hu : ∀ b ∈ u.head?, (Utf8.trail? b).isNone = true)
    (h : formLength blankForms t = 0) : formLength blankForms (t ++ u) = 0 := by
  have hall : ∀ f ∈ blankForms, ∀ b ∈ f.tail, (Utf8.trail? b).isNone = false := by decide +kernel
  rw [formLength_eq_zero blankForms_heads] at h ⊢
  intro f hf hpre
  rcases List.prefix_or_prefix_of_prefix hpre (List.prefix_append t u) with hft | ⟨v, rfl⟩
  · exact h f hf hft
  · cases v with
    | nil => exact h _ hf (by simp)
    | cons b v =>
      obtain ⟨rest, hrest⟩ := (List.prefix_append_right_inj t).1 hpre
      obtain ⟨x, t', rfl⟩ := List.exists_cons_of_ne_nil ht
      have htrail := hall _ hf b (by simp)
      rw [hu b (by rw [← hrest]; rfl)] at htrail
      cases htrail

theorem trimLeft_blank {r : Text} (hr : IsBlank r) (t : Text) : trimLeft (r ++ t) = trimLeft t := by
  obtain ⟨fs, hfs, rfl⟩ := isBlank_iff.1 hr
  exact dropForms_run blankForms_prefixFree blankForms_heads hfs t

theorem trimRight_blank {r : Text} (hr : IsBlank r) (t : Text) : trimRight (t ++ r) = trimRight t := by
  obtain ⟨fs, hfs, rfl⟩ := isBlank_iff.1 hr
  have hreversed : ∀ f ∈ (fs.map List.reverse).reverse, f ∈ blankFormsReversed := by
    intro f hf
    obtain ⟨g, hg, rfl⟩ := List.mem_map.1 (List.mem_reverse.1 hf)
    exact List.mem_map.2 ⟨g, hfs g hg, rfl⟩
  unfold trimRight
  rw [List.reverse_append, List.reverse_flatten,
    dropForms_run blankFormsReversed_prefixFree blankFormsReversed_heads hreversed]

theorem exists_trimLeft (t : Text) : ∃ r, IsBlank r ∧ t = r ++ trimLeft t := by
  obtain ⟨fs, hfs, heq⟩ := exists_run blankForms t
  exact ⟨fs.flatten, isBlank_iff.2 ⟨fs, hfs, rfl⟩, heq⟩

theorem exists_trimRight (t : Text) : ∃ r, IsBlank r ∧ t = trimRight t ++ r := by
  obtain ⟨fs, hfs, heq⟩ := exists_run blankFormsReversed t.reverse
  refine ⟨fs.flatten.reverse, isBlank_iff.2 ⟨(fs.map List.reverse).reverse, ?_, List.reverse_flatten ..⟩, ?_⟩
  · intro f hf
    obtain ⟨g, hg, rfl⟩ := List.mem_map.1 (List.mem_reverse.1 hf)
    obtain ⟨x, hx, rfl⟩ := List.mem_map.1 (hfs g hg)
    rwa [List.reverse_reverse]
  · have hreverse := congrArg List.reverse heq
    rwa [List.reverse_reverse, List.reverse_append] at hreverse

/-- Trimming takes off white space at both ends. -/
theorem exists_trim (t : Text) : ∃ r r', IsBlank r ∧ IsBlank r' ∧ t = r ++ (trim t ++ r') := by
  obtain ⟨r, hr, hleft⟩ := exists_trimLeft t
  obtain ⟨r', hr', hright⟩ := exists_trimRight (trimLeft t)
  exact ⟨r, r', hr, hr', by rw [trim, ← hright]; exact hleft⟩

/-- White space around a text makes no difference, whatever the text is. -/
theorem trim_blank {r r' : Text} (hr : IsBlank r) (hr' : IsBlank r') (t : Text) : trim (r ++ (t ++ r')) = trim t := by
  obtain ⟨s, hs, ht⟩ := exists_trimLeft t
  rw [trim, trimLeft_blank hr, trim]
  by_cases hempty : trimLeft t = []
  · -- the text is white space itself, and all of it is dropped
    rw [hempty, List.append_nil] at ht
    have hall := trimLeft_blank (hs.append hr') []
    rw [List.append_nil] at hall
    rw [hempty, ht, hall]
    rfl
  · have hfront : formLength blankForms (trimLeft t) = 0 := (formLength_dropForms blankForms t 0).resolve_left hempty
    have hleft : trimLeft (t ++ r') = trimLeft t ++ r' := by
      rw [ht, List.append_assoc, trimLeft_blank hs, ← ht]
      exact dropForms_of_formLength (.inr (formLength_append hempty hr'.head_not_trail hfront))
    rw [hleft, trimRight_blank hr']

theorem trim_blank_left {r : Text} (hr : IsBlank r) (t : Text) : trim (r ++ t) = trim t := by
  rw [trim, trimLeft_blank hr, trim]

/-! ## Words -/

/-- No white space anywhere. -/
def Unbroken (t : Text) : Prop := ∀ s, s ≠ [] → s <:+ t → formLength blankForms s = 0

theorem unbroken_of_solid {t : Text} (h : ∀ b ∈ t, isSolid b = true) : Unbroken t := by
  intro s hne hs
  obtain ⟨b, s', rfl⟩ := List.exists_cons_of_ne_nil hne
  exact formLength_solid blankForms_heads (h b (hs.subset List.mem_cons_self)) s'

namespace Unbroken

variable {word : Text}

theorem tail {b : UInt8} (h : Unbroken (b :: word)) : Unbroken word :=
  fun s hne hs => h s hne (hs.trans (List.suffix_cons b word))

theorem trim_eq (h : Unbroken word) : trim word = word := by
  obtain ⟨r, r', hr, hr', heq⟩ := exists_trim word
  -- a run that was taken off begins or ends the word, and there is none in it
  have hnil : ∀ s, IsBlank s → ∀ u, s ++ u <:+ word → s = [] := by
    intro s hs u hsuffix
    obtain ⟨fs, hfs, rfl⟩ := isBlank_iff.1 hs
    cases fs with
    | nil => rfl
    | cons f fs =>
      have hf := hfs f List.mem_cons_self
      have hne := ne_nil_of_headsNotSolid blankForms_heads hf
      have hzero := h ((f :: fs).flatten ++ u) (by simp [hne]) hsuffix
      rw [List.flatten_cons, List.append_assoc, formLength_form blankForms_prefixFree hf] at hzero
      exact absurd (List.length_eq_zero_iff.1 hzero) hne
  have hr_nil := hnil r hr (trim word ++ r') (heq ▸ List.suffix_refl _)
  have hr'_nil := hnil r' hr' [] ⟨r ++ trim word, by rw [List.append_nil, List.append_assoc, ← heq]⟩
  rw [hr_nil, hr'_nil, List.append_nil, List.nil_append] at heq
  exact heq.symm

theorem trimLeft_append (h : Unbroken word) (hne : word ≠ []) {u : Text}
    (hu : ∀ b ∈ u.head?, (Utf8.trail? b).isNone = true) : trimLeft (word ++ u) = word ++ u :=
  dropForms_of_formLength (.inr (formLength_append hne hu (h word hne (List.suffix_refl _))))

/-- A text that begins with a word and ends with a solid byte is not trimmed. -/
theorem trim_append (h : Unbroken word) (hne : word ≠ []) {u : Text}
    (hu : ∀ b ∈ u.head?, (Utf8.trail? b).isNone = true) (hlast : ∀ b ∈ (word ++ u).getLast?, isSolid b = true) :
    trim (word ++ u) = word ++ u := by
  unfold trim trimRight
  rw [h.trimLeft_append hne hu, dropForms_solid blankFormsReversed_heads, List.reverse_reverse]
  rwa [List.head?_reverse]

theorem cutBlank_go (h : Unbroken word) {u : Text} (hu : ∀ b ∈ u.head?, (Utf8.trail? b).isNone = true) (acc : Text) :
    cutBlank.go acc (word ++ u) = cutBlank.go (word.reverse ++ acc) u := by
  induction word generalizing acc with
  | nil => rfl
  | cons b word ih =>
    have hzero := formLength_append (by simp) hu (h (b :: word) (by simp) (List.suffix_refl _))
    rw [List.cons_append] at hzero ⊢
    rw [cutBlank.go, if_pos hzero, ih h.tail, List.reverse_cons, List.append_assoc]
    rfl

theorem cutBlank_eq (h : Unbroken word) : cutBlank word = (word, []) := by
  have hgo := h.cutBlank_go (u := []) (by simp) []
  rw [List.append_nil] at hgo
  rw [cutBlank, hgo]
  simp [cutBlank.go]

/-- A word is cut off in front of the white space after it. -/
theorem cutBlank_gap (h : Unbroken word) {gap : Text} (hgap : IsBlank gap) (hne : gap ≠ []) (rest : Text) :
    cutBlank (word ++ (gap ++ rest)) = (word, gap ++ rest) := by
  have htrail := hgap.head_append hne rest
  obtain ⟨b, more, rfl⟩ := List.exists_cons_of_ne_nil hne
  have hform : formLength blankForms (b :: more ++ rest) ≠ 0 := by
    obtain ⟨fs, hfs, heq⟩ := isBlank_iff.1 hgap
    cases fs with
    | nil => cases heq
    | cons f fs =>
      have hf := hfs f List.mem_cons_self
      rw [heq, List.flatten_cons, List.append_assoc, formLength_form blankForms_prefixFree hf]
      exact fun h => ne_nil_of_headsNotSolid blankForms_heads hf (List.length_eq_zero_iff.1 h)
  rw [cutBlank, h.cutBlank_go htrail]
  rw [List.cons_append] at hform ⊢
  rw [cutBlank.go, if_neg hform]
  simp

/-- A word at the end of a text need not be followed by white space. -/
theorem cutBlank_word (h : Unbroken word) {gap rest : Text} (hgap : IsBlank gap) (hends : gap ≠ [] ∨ rest = []) :
    cutBlank (word ++ (gap ++ rest)) = (word, gap ++ rest) := by
  by_cases hne : gap = []
  · cases hends.resolve_left (not_not.2 hne)
    rw [hne, List.append_nil, List.append_nil, h.cutBlank_eq]
  · exact h.cutBlank_gap hgap hne rest

end Unbroken

/-! ## Lists -/

theorem splitTop_go_front (sep : UInt8) {r : Text} (hr : IsBlank r) (t : Text) :
    ∀ (s : Scan) (part : Text) (parts : List Text),
      splitTop.go sep s (part ++ r.reverse) parts t = splitTop.go sep s part parts t := by
  have htrim : ∀ part : Text, trim (part ++ r.reverse).reverse = trim part.reverse := by
    intro part
    rw [List.reverse_append, List.reverse_reverse, trim_blank_left hr]
  induction t with
  | nil => intro s part parts; rw [splitTop.go, splitTop.go, htrim]
  | cons b t ih =>
    intro s part parts
    rw [splitTop.go, splitTop.go, htrim, ← List.cons_append, ih]

theorem splitTop_go_back {sep : UInt8} {r : Text} (hr : IsBlank r) (hsep : sep ∉ r) (t : Text) :
    ∀ (s : Scan) (part : Text) (parts : List Text),
      splitTop.go sep s part parts (t ++ r) = splitTop.go sep s part parts t := by
  induction t with
  | nil =>
    intro s part parts
    have hgo := splitTop_go (Scan.avoids_separator hsep s) part parts []
    rw [List.append_nil] at hgo
    have htrim := trim_blank IsBlank.nil hr part.reverse
    rw [List.nil_append] at htrim
    rw [List.nil_append, hgo, splitTop.go, splitTop.go, List.reverse_append, List.reverse_reverse, htrim]
  | cons b t ih =>
    intro s part parts
    rw [List.cons_append, splitTop.go, splitTop.go, ih, ih]

/-- White space around a list makes no difference to its parts, wherever a scan of it ends. -/
theorem splitTop_blank {sep : UInt8} (hsep : isQuiet sep = false) {r r' : Text} (hr : IsBlank r) (hr' : IsBlank r')
    (t : Text) : splitTop sep (r ++ (t ++ r')) = splitTop sep t := by
  have hfront := part_of_quiet hsep hr.quiet
  rw [splitTop, splitTop_go hfront.avoids, hfront.ends, List.append_nil,
    splitTop_go_back hr' (not_mem_of_quiet hr'.quiet hsep)]
  exact splitTop_go_front sep hr t _ [] _

theorem splitTop_trim {sep : UInt8} (hsep : isQuiet sep = false) (t : Text) : splitTop sep (trim t) = splitTop sep t := by
  obtain ⟨r, r', hr, hr', heq⟩ := exists_trim t
  conv_rhs => rw [heq]
  exact (splitTop_blank hsep hr hr' _).symm

/-- What comes after a part and its separator is split by itself. -/
theorem splitTop_cons {sep : UInt8} (hsep : Scan.separatorAt sep {} sep = true) {t : Text} (ht : Part sep t) (rest : Text) :
    splitTop sep (t ++ sep :: rest) = trim t :: splitTop sep rest := by
  have hparts : ∀ (u : Text) (s : Scan) (part : Text) (parts : List Text),
      splitTop.go sep s part parts u = parts.reverse ++ splitTop.go sep s part [] u := by
    intro u
    induction u with
    | nil => intro s part parts; simp [splitTop.go]
    | cons b u ih =>
      intro s part parts
      rw [splitTop.go, splitTop.go]
      split
      · rw [ih _ _ (_ :: parts), ih _ _ [_]]
        simp
      · exact ih _ _ parts
  have hs : (Scan.top {} && sep == sep && Scan.step {} sep == {}) = true := hsep
  rw [splitTop, splitTop_go ht.avoids, ht.ends, splitTop.go, hs, if_pos rfl, hparts]
  simp [splitTop]

end Dcpu16.Text
