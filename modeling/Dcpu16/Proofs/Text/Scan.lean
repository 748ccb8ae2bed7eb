/-
Scanning a text in pieces. A scan is a fold, so it goes through one piece after the other; a piece in
which it meets nothing to stop at is passed over whole. From this a line without a comment is kept as it
is, and a part without a separator is not split. The body of a string literal is one such piece: inside
quotes nothing stops a scan, and escaping lets no byte end them.
-/
import Dcpu16.Proofs.Text.Blank
import Dcpu16.Text.Quoted
import Dcpu16.Text.Scan

namespace Dcpu16

namespace Scan

/-- The state after a text. -/
def run (s : Scan) (t : Text) : Scan := t.foldl step s

theorem run_append (s : Scan) (t u : Text) : s.run (t ++ u) = (s.run t).run u := List.foldl_append

/-- A scan that meets no byte to stop at. -/
def Avoids (stop : Scan → UInt8 → Bool) : Scan → Text → Prop
  | _, [] => True
  | s, b :: t => stop s b = false ∧ Avoids stop (s.step b) t

instance decidableAvoids (stop : Scan → UInt8 → Bool) : ∀ (s : Scan) (t : Text), Decidable (Avoids stop s t)
  | _, [] => isTrue trivial
  | s, b :: t =>
    have := decidableAvoids stop (s.step b) t
    inferInstanceAs (Decidable (stop s b = false ∧ Avoids stop (s.step b) t))

theorem avoids_append (stop : Scan → UInt8 → Bool) (s : Scan) (t u : Text) :
    Avoids stop s (t ++ u) ↔ Avoids stop s t ∧ Avoids stop (s.run t) u := by
  induction t generalizing s with
  | nil => simp [Avoids, run]
  | cons b t ih =>
    rw [List.cons_append, Avoids, Avoids, ih, and_assoc]
    rfl

/-- A scan meets nothing to stop at, or there is a first byte at which it stops. -/
theorem avoids_or_stops (stop : Scan → UInt8 → Bool) (s : Scan) (t : Text) :
    Avoids stop s t ∨
      ∃ before b after, t = before ++ b :: after ∧ Avoids stop s before ∧ stop (s.run before) b = true := by
  induction t generalizing s with
  | nil => exact .inl trivial
  | cons b t ih =>
    by_cases hb : stop s b = true
    · exact .inr ⟨[], b, t, rfl, trivial, hb⟩
    · rw [Bool.not_eq_true] at hb
      rcases ih (s.step b) with havoids | ⟨before, c, after, rfl, havoids, hc⟩
      · exact .inl ⟨hb, havoids⟩
      · exact .inr ⟨b :: before, c, after, rfl, ⟨hb, havoids⟩, hc⟩

theorem eq_of_outside {s : Scan} (h : s.outside = true) : s = { depth := s.depth } := by
  obtain ⟨quote, escaped, depth⟩ := s
  simp only [outside, Bool.and_eq_true, Option.isNone_iff_eq_none, Bool.not_eq_true'] at h
  obtain ⟨rfl, rfl⟩ := h
  rfl

theorem eq_of_top {s : Scan} (h : s.top = true) : s = {} := by
  simp only [top, Bool.and_eq_true, beq_iff_eq] at h
  rw [eq_of_outside h.1, h.2]

/-- Brackets make no difference to quotes. -/
theorem step_quotes {s s' : Scan} (hquote : s.quote = s'.quote) (hescaped : s.escaped = s'.escaped) (b : UInt8) :
    (s.step b).quote = (s'.step b).quote ∧ (s.step b).escaped = (s'.step b).escaped := by
  obtain ⟨quote, escaped, depth⟩ := s
  obtain ⟨quote', escaped', depth'⟩ := s'
  cases hquote
  cases hescaped
  cases escaped with
  | true => exact ⟨rfl, rfl⟩
  | false =>
    cases quote with
    | some q => simp only [step]; split_ifs <;> exact ⟨rfl, rfl⟩
    | none => simp only [step]; split_ifs <;> exact ⟨rfl, rfl⟩

/-- The start of a comment. -/
def commentAt (s : Scan) (b : UInt8) : Bool := s.outside && b == Text.byte ';'

/-- The end of a part. -/
def separatorAt (sep : UInt8) (s : Scan) (b : UInt8) : Bool := s.top && b == sep && s.step b == s

theorem avoids_comment {t : Text} (h : Text.byte ';' ∉ t) (s : Scan) : Avoids commentAt s t := by
  induction t generalizing s with
  | nil => trivial
  | cons b t ih =>
    rw [List.mem_cons, not_or] at h
    refine ⟨?_, ih h.2 _⟩
    simp [commentAt, Ne.symm h.1]

theorem avoids_separator {sep : UInt8} {t : Text} (h : sep ∉ t) (s : Scan) : Avoids (separatorAt sep) s t := by
  induction t generalizing s with
  | nil => trivial
  | cons b t ih =>
    rw [List.mem_cons, not_or] at h
    refine ⟨?_, ih h.2 _⟩
    simp [separatorAt, Ne.symm h.1]

/-! ## Plain bytes -/

/-- A byte that is no quote mark and no bracket. -/
def isPlain (b : UInt8) : Bool := !isQuote b && !isOpening b && !isClosing b

theorem run_plain {t : Text} (h : ∀ b ∈ t, isPlain b = true) (depth : Int) :
    run { depth } t = { depth } := by
  induction t with
  | nil => rfl
  | cons b t ih =>
    have hb := h b List.mem_cons_self
    simp only [isPlain, Bool.and_eq_true, Bool.not_eq_true'] at hb
    have hstep : step { depth } b = { depth } := by simp [step, hb]
    rw [run, List.foldl_cons, hstep]
    exact ih fun x hx => h x (List.mem_cons_of_mem _ hx)

/-- Brackets around plain bytes leave the scan where it was. -/
theorem run_brackets {t : Text} (h : ∀ b ∈ t, isPlain b = true) : run {} (91 :: (t ++ [93])) = {} := by
  rw [show (91 :: (t ++ [93]) : Text) = [91] ++ (t ++ [93]) from rfl, run_append, run_append,
    show run {} [91] = { depth := 1 } from rfl, run_plain h]
  rfl

/-! ## String literals -/

/-- The scan inside double quotes. -/
def inString (depth : Int) : Scan := { quote := some 34, depth }

theorem run_escapeByte (depth : Int) (b : UInt8) : (inString depth).run (Text.escapeByte b) = inString depth := by
  unfold Text.escapeByte
  split_ifs with h1 h2 h3 h4 h5 h6 <;> try rfl
  have h : b ≠ 92 ∧ b ≠ 34 := ⟨h1, h2⟩
  simp [run, step, inString, h1, h.2]

theorem run_escape (depth : Int) (t : Text) : (inString depth).run (Text.escape t) = inString depth := by
  induction t with
  | nil => rfl
  | cons b t ih =>
    rw [show Text.escape (b :: t) = Text.escapeByte b ++ Text.escape t from List.flatMap_cons, run_append,
      run_escapeByte, ih]

/-- Nothing to stop at inside quotes. -/
def Outside (stop : Scan → UInt8 → Bool) : Prop := ∀ s b, s.outside = false → stop s b = false

theorem commentAt_outside : Outside commentAt := fun s b h => by simp [commentAt, h]

theorem separatorAt_outside (sep : UInt8) : Outside (separatorAt sep) := fun s b h => by simp [separatorAt, top, h]

theorem avoids_escapeByte {stop : Scan → UInt8 → Bool} (h : Outside stop) (depth : Int) (b : UInt8) :
    Avoids stop (inString depth) (Text.escapeByte b) := by
  have hin : stop (inString depth) b = false := h _ _ rfl
  -- an escape is a backslash, after which the scan is still inside quotes, and one more byte
  have hpair : ∀ x : UInt8, Avoids stop (inString depth) [92, x] := fun x => ⟨h _ _ rfl, h _ _ rfl, trivial⟩
  unfold Text.escapeByte
  split_ifs <;> first | exact hpair _ | exact ⟨hin, trivial⟩

theorem avoids_escape {stop : Scan → UInt8 → Bool} (h : Outside stop) (depth : Int) (t : Text) :
    Avoids stop (inString depth) (Text.escape t) := by
  induction t with
  | nil => trivial
  | cons b t ih =>
    rw [show Text.escape (b :: t) = Text.escapeByte b ++ Text.escape t from List.flatMap_cons, avoids_append,
      run_escapeByte]
    exact ⟨avoids_escapeByte h depth b, ih⟩

end Scan

/-- A text in double quotes, as it is written in a data declaration. -/
def Text.literal (t : Text) : Text := 34 :: (Text.escape t ++ [34])

namespace Scan

/-- A literal leaves the scan where it was. -/
theorem run_literal (depth : Int) (t : Text) : run { depth } (Text.literal t) = { depth } := by
  rw [Text.literal, show (34 :: (Text.escape t ++ [34]) : Text) = [34] ++ (Text.escape t ++ [34]) from rfl, run_append,
    run_append, show run { depth } [34] = inString depth from rfl, run_escape]
  rfl

theorem avoids_literal {stop : Scan → UInt8 → Bool} (h : Outside stop) (depth : Int)
    (hquote : stop { depth } 34 = false) (t : Text) : Avoids stop { depth } (Text.literal t) := by
  refine ⟨hquote, ?_⟩
  rw [show step { depth } 34 = inString depth from rfl, avoids_append, run_escape]
  exact ⟨avoids_escape h depth t, h _ _ rfl, trivial⟩

/-- Wherever a scan is outside quotes, a literal is passed over: the scan ends where it began, starts no comment and finds no
separator. -/
theorem passes_literal {s : Scan} (h : s.outside = true) (t : Text) :
    s.run (Text.literal t) = s ∧ Avoids commentAt s (Text.literal t) ∧
      ∀ sep, Avoids (separatorAt sep) s (Text.literal t) := by
  rw [eq_of_outside h]
  refine ⟨run_literal _ t, avoids_literal commentAt_outside _ rfl t, fun sep => ?_⟩
  -- a quote mark never separates, since the scan moves at it
  have hmoves : (step { depth := s.depth } 34 == { depth := s.depth }) = false := rfl
  refine avoids_literal (separatorAt_outside sep) _ ?_ t
  rw [separatorAt, hmoves, Bool.and_false]

end Scan

namespace Text

/-! ## Comments -/

theorem stripComment_go {s : Scan} {t : Text} (h : Scan.Avoids Scan.commentAt s t) (kept rest : Text) :
    stripComment.go s kept (t ++ rest) = stripComment.go (s.run t) (t.reverse ++ kept) rest := by
  induction t generalizing s kept with
  | nil => rfl
  | cons b t ih =>
    have hb : (s.outside && b == byte ';') = false := h.1
    rw [List.cons_append, stripComment.go, hb, if_neg Bool.false_ne_true, ih h.2, List.reverse_cons, List.append_assoc]
    rfl

theorem stripComment_go_kept (t : Text) :
    ∀ (s : Scan) (kept : Text), stripComment.go s kept t = kept.reverse ++ stripComment.go s [] t := by
  induction t with
  | nil => simp [stripComment.go]
  | cons b t ih =>
    intro s kept
    rw [stripComment.go, stripComment.go]
    split
    · simp
    · rw [ih _ (b :: kept), ih _ [b], List.reverse_cons, List.append_assoc]
      rfl

/-- Open brackets make no difference to where a comment starts. -/
theorem stripComment_go_quotes (t : Text) :
    ∀ {s s' : Scan}, s.quote = s'.quote → s.escaped = s'.escaped →
      ∀ kept, stripComment.go s kept t = stripComment.go s' kept t := by
  induction t with
  | nil => exact fun _ _ _ => rfl
  | cons b t ih =>
    intro s s' hquote hescaped kept
    have hstep := Scan.step_quotes hquote hescaped b
    have houtside : s.outside = s'.outside := by rw [Scan.outside, Scan.outside, hquote, hescaped]
    rw [stripComment.go, stripComment.go, houtside, ih hstep.1 hstep.2]

/-- A text that no comment starts in is kept, and what follows it outside quotes is stripped by itself. -/
theorem stripComment_append {t : Text} (houtside : (Scan.run {} t).outside = true)
    (h : Scan.Avoids Scan.commentAt {} t) (rest : Text) : stripComment (t ++ rest) = t ++ stripComment rest := by
  have hrest : stripComment.go { depth := (Scan.run {} t).depth } [] rest = stripComment.go {} [] rest :=
    stripComment_go_quotes rest (by rfl) (by rfl) []
  rw [stripComment, stripComment_go h, stripComment_go_kept, List.append_nil, List.reverse_reverse,
    Scan.eq_of_outside houtside, hrest]
  rfl

/-- A line in which no comment starts is kept. -/
theorem stripComment_eq_self {t : Text} (h : Scan.Avoids Scan.commentAt {} t) : stripComment t = t := by
  have hgo := stripComment_go h [] []
  rw [List.append_nil] at hgo
  rw [stripComment, hgo]
  simp [stripComment.go]

/-! ## Parts -/

/-- A part: scanned from the top it ends at the top, and no separator stands at the top. -/
structure Part (sep : UInt8) (t : Text) : Prop where
  ends : Scan.run {} t = {}
  avoids : Scan.Avoids (Scan.separatorAt sep) {} t

theorem Part.append {sep : UInt8} {t u : Text} (ht : Part sep t) (hu : Part sep u) : Part sep (t ++ u) where
  ends := by rw [Scan.run_append, ht.ends, hu.ends]
  avoids := by
    rw [Scan.avoids_append, ht.ends]
    exact ⟨ht.avoids, hu.avoids⟩

theorem splitTop_go {sep : UInt8} {s : Scan} {t : Text} (h : Scan.Avoids (Scan.separatorAt sep) s t) (part : Text)
    (parts : List Text) (rest : Text) :
    splitTop.go sep s part parts (t ++ rest) = splitTop.go sep (s.run t) (t.reverse ++ part) parts rest := by
  induction t generalizing s part with
  | nil => rfl
  | cons b t ih =>
    have hb : (s.top && b == sep && s.step b == s) = false := h.1
    rw [List.cons_append, splitTop.go, hb, if_neg Bool.false_ne_true, ih h.2, List.reverse_cons, List.append_assoc]
    rfl

theorem splitTop_go_ne_nil (sep : UInt8) (t : Text) :
    ∀ (s : Scan) (part : Text) (parts : List Text), splitTop.go sep s part parts t ≠ [] := by
  induction t with
  | nil => simp [splitTop.go]
  | cons b t ih =>
    intro s part parts
    rw [splitTop.go]
    split
    · exact ih _ _ _
    · exact ih _ _ _

/-- There is always a part, if only an empty one. -/
theorem splitTop_ne_nil (sep : UInt8) (t : Text) : splitTop sep t ≠ [] := splitTop_go_ne_nil sep t _ _ _

/-- A text without a separator is one part, wherever a scan of it ends. -/
theorem splitTop_avoids {sep : UInt8} {t : Text} (h : Scan.Avoids (Scan.separatorAt sep) {} t) :
    splitTop sep t = [trim t] := by
  have hgo := splitTop_go h [] [] []
  rw [List.append_nil] at hgo
  rw [splitTop, hgo]
  simp [splitTop.go]

theorem splitTop_part {sep : UInt8} {t : Text} (ht : Part sep t) : splitTop sep t = [trim t] :=
  splitTop_avoids ht.avoids

end Text

end Dcpu16
