/-
Splitting and joining, and string literals in what is split. A text is cut at its separators from left to right, so texts that
are joined are split into themselves again. What a scan passes over, ending where it began, stays whole in the part that it
stands in and can be left out without a change to any other part. A string literal is passed over wherever the scan
is outside quotes, whatever bytes it holds: no comment starts in it and nothing in it separates.
-/
import Dcpu16.Proofs.Text.Run
import Dcpu16.Proofs.Text.Written

namespace Dcpu16.Text

variable {sep : UInt8} {t : Text}

instance : Decidable (Part sep t) :=
  decidable_of_iff (Scan.run {} t = {} ∧ Scan.Avoids (Scan.separatorAt sep) {} t)
    ⟨fun h => ⟨h.1, h.2⟩, fun h => ⟨h.ends, h.avoids⟩⟩

/-! ## Joined texts -/

theorem join_cons_cons (sep t u : Text) (ts : List Text) : join sep (t :: u :: ts) = t ++ (sep ++ join sep (u :: ts)) := by
  simp [join]

/-- A byte that is no quote mark and no bracket separates where nothing is open. -/
theorem separatorAt_plain (h : Scan.isPlain sep = true) : Scan.separatorAt sep {} sep = true := by
  have hstep : Scan.step {} sep = {} := Scan.run_plain (t := [sep]) (by simpa using h) 0
  simp [Scan.separatorAt, Scan.top, Scan.outside, hstep]

/-- Parts that are joined by a comma, a plus sign or any other byte that is no quote mark and no bracket are split
into the same parts, each of them trimmed. -/
theorem splitTop_join (sep : UInt8) (hsep : Scan.isPlain sep = true) (ts : List Text) (hne : ts ≠ [])
    (hparts : ∀ t ∈ ts, Part sep t) : splitTop sep (join [sep] ts) = ts.map trim := by
  induction ts with
  | nil => exact absurd rfl hne
  | cons t ts ih =>
    have ht := hparts t List.mem_cons_self
    cases ts with
    | nil =>
      have hone : join [sep] [t] = t := List.append_nil t
      rw [hone, splitTop_part ht]
      rfl
    | cons u ts =>
      have hrest := ih (List.cons_ne_nil u ts) fun v hv => hparts v (List.mem_cons_of_mem _ hv)
      calc splitTop sep (join [sep] (t :: u :: ts))
          = splitTop sep (t ++ sep :: join [sep] (u :: ts)) := by rw [join_cons_cons]; rfl
        _ = trim t :: splitTop sep (join [sep] (u :: ts)) := splitTop_cons (separatorAt_plain hsep) ht _
        _ = (t :: u :: ts).map trim := by rw [hrest]; rfl

/-- Separators in a string behind an escaped quote mark, in nested brackets and as a character, and an empty part. -/
theorem splitTop_join_nested :
    let items := [ofString " \"a\\\",\" ", ofString "$(f([1,2], 3))", [], ofString "','"]
    let terms := [ofString "X ", ofString " '+'", ofString "(1+[2+3])"]
    (∀ t ∈ items, Part (byte ',') t) ∧ (∀ t ∈ terms, Part (byte '+') t) ∧
    splitTop (byte ',') (ofString " \"a\\\",\" ,$(f([1,2], 3)),,','") =
      [ofString "\"a\\\",\"", ofString "$(f([1,2], 3))", [], ofString "','"] ∧
    splitTop (byte '+') (ofString "X + '+'+(1+[2+3])") = [ofString "X", ofString "'+'", ofString "(1+[2+3])"] := by
  intro items terms
  have hitems : ∀ t ∈ items, Part (byte ',') t := by decide +kernel
  have hterms : ∀ t ∈ terms, Part (byte '+') t := by decide +kernel
  refine ⟨hitems, hterms, ?_, ?_⟩
  · exact (splitTop_join _ (by decide) items (by simp [items]) hitems).trans (by decide +kernel)
  · exact (splitTop_join _ (by decide) terms (by simp [terms]) hterms).trans (by decide +kernel)

/-! ## Where a text is cut -/

/-- A scan is at the top in front of a separator and behind it. -/
theorem separatorAt_top {s : Scan} {b : UInt8} (h : Scan.separatorAt sep s b = true) :
    s = {} ∧ b = sep ∧ Scan.step {} b = {} := by
  simp only [Scan.separatorAt, Bool.and_eq_true, beq_iff_eq] at h
  obtain ⟨⟨htop, hb⟩, hstep⟩ := h
  cases Scan.eq_of_top htop
  exact ⟨rfl, hb, hstep⟩

/-- A text up to its first separator is the first part. -/
theorem splitTop_first (havoids : Scan.Avoids (Scan.separatorAt sep) {} t) {b : UInt8}
    (hb : Scan.separatorAt sep (Scan.run {} t) b = true) (rest : Text) :
    splitTop sep (t ++ b :: rest) = trim t :: splitTop sep rest := by
  obtain ⟨hends, rfl, -⟩ := separatorAt_top hb
  rw [hends] at hb
  exact splitTop_cons hb ⟨hends, havoids⟩ rest

/-- The parts that are complete at the end of a text, whatever follows, and the start of the next one, behind the last
separator. -/
theorem exists_start (sep : UInt8) (p : Text) :
    ∃ before start, start <:+ p ∧ Scan.run {} start = Scan.run {} p ∧ Scan.Avoids (Scan.separatorAt sep) {} start ∧
      ∀ u, splitTop sep (p ++ u) = before ++ splitTop sep (start ++ u) := by
  -- what is behind the first separator is shorter
  induction hn : p.length using Nat.strongRecOn generalizing p with
  | ind n ih =>
    rcases Scan.avoids_or_stops (Scan.separatorAt sep) {} p with havoids | ⟨t, b, rest, rfl, havoids, hb⟩
    · exact ⟨[], p, List.suffix_rfl, rfl, havoids, fun u => rfl⟩
    · have hshorter : rest.length < n := by
        rw [← hn, List.length_append, List.length_cons]
        omega
      obtain ⟨before, start, hsuffix, hrun, hstart, hsplit⟩ := ih rest.length hshorter rest rfl
      refine ⟨trim t :: before, start, ?_, ?_, hstart, fun u => ?_⟩
      · exact hsuffix.trans ((List.suffix_cons b rest).trans (List.suffix_append t _))
      · obtain ⟨hends, -, hstep⟩ := separatorAt_top hb
        rw [List.append_cons, Scan.run_append, Scan.run_append, hends, hrun]
        exact congrArg (Scan.run · rest) hstep.symm
      · rw [List.append_assoc, List.cons_append, splitTop_first havoids hb, hsplit, List.cons_append]

/-- The rest of a part that has begun, and the parts behind it, depend on the scan at which the rest begins alone. -/
theorem exists_rest (sep : UInt8) (s : Scan) (q : Text) :
    ∃ rest after, rest <+: q ∧ ∀ start, Scan.run {} start = s → Scan.Avoids (Scan.separatorAt sep) {} start →
      splitTop sep (start ++ q) = trim (start ++ rest) :: after := by
  have hbegun : ∀ {start rest : Text}, Scan.run {} start = s → Scan.Avoids (Scan.separatorAt sep) {} start →
      Scan.Avoids (Scan.separatorAt sep) s rest → Scan.Avoids (Scan.separatorAt sep) {} (start ++ rest) := by
    rintro start rest rfl hstart hrest
    exact (Scan.avoids_append _ _ _ _).2 ⟨hstart, hrest⟩
  rcases Scan.avoids_or_stops (Scan.separatorAt sep) s q with havoids | ⟨rest, b, more, rfl, havoids, hb⟩
  · exact ⟨q, [], List.prefix_rfl, fun start hrun hstart => splitTop_avoids (hbegun hrun hstart havoids)⟩
  · refine ⟨rest, splitTop sep more, List.prefix_append _ _, fun start hrun hstart => ?_⟩
    rw [← hrun, ← Scan.run_append] at hb
    rw [← List.append_assoc]
    exact splitTop_first (hbegun hrun hstart havoids) hb more

/-! ## Literals in a text -/

/-- A text that is passed over, ending where it began, stays whole in one part; the other parts are those of the text
without it. -/
theorem splitTop_passed {p : Text} (hends : (Scan.run {} p).run t = Scan.run {} p)
    (havoids : Scan.Avoids (Scan.separatorAt sep) (Scan.run {} p) t) (q : Text) :
    ∃ before start rest after, start <:+ p ∧ rest <+: q ∧ splitTop sep p = before ++ [trim start] ∧
      splitTop sep (p ++ q) = before ++ trim (start ++ rest) :: after ∧
      splitTop sep (p ++ (t ++ q)) = before ++ trim (start ++ (t ++ rest)) :: after := by
  obtain ⟨before, start, hsuffix, hrun, hstart, hbefore⟩ := exists_start sep p
  obtain ⟨rest, after, hprefix, hafter⟩ := exists_rest sep (Scan.run {} p) q
  have hpassed : Scan.Avoids (Scan.separatorAt sep) {} (start ++ t) := by
    rw [Scan.avoids_append, hrun]
    exact ⟨hstart, havoids⟩
  refine ⟨before, start, rest, after, hsuffix, hprefix, ?_, ?_, ?_⟩
  · have hwhole := hbefore []
    rwa [List.append_nil, List.append_nil, splitTop_avoids hstart] at hwhole
  · rw [hbefore, hafter start hrun hstart]
  · rw [hbefore, ← List.append_assoc, hafter (start ++ t) (by rw [Scan.run_append, hrun, hends]) hpassed,
      List.append_assoc]

/-- Escaping a text and unescaping it gives it back, whatever its bytes. As a literal it holds no line feed, carriage return,
tab or null. Behind a text at whose end the scan is outside quotes and has met no comment, it is opaque: the
scan goes on behind it as it stood in front of it, the literal and what is in front of it are kept when a comment is
stripped, and it is in one part of a list, whose other parts are those of the list without it. -/
theorem literal_opaque (s p q : Text) (houtside : (Scan.run {} p).outside = true)
    (hcomment : Scan.Avoids Scan.commentAt {} p) :
    let literal := (Datum.string s).render
    unescape (escape s) = some s ∧
    (∀ b ∈ ([10, 13, 9, 0] : Text), b ∉ literal) ∧
    Scan.run {} (p ++ literal) = Scan.run {} p ∧
    stripComment (p ++ (literal ++ q)) = p ++ (literal ++ stripComment q) ∧
    ∀ sep, ∃ before start rest after, start <:+ p ∧ rest <+: q ∧ splitTop sep p = before ++ [trim start] ∧
      splitTop sep (p ++ q) = before ++ trim (start ++ rest) :: after ∧
      splitTop sep (p ++ (literal ++ q)) = before ++ trim (start ++ (literal ++ rest)) :: after := by
  intro literal
  obtain ⟨hends, hnoComment, hnoSeparator⟩ := Scan.passes_literal houtside s
  have hrun : Scan.run {} (p ++ literal) = Scan.run {} p := (Scan.run_append _ _ _).trans hends
  refine ⟨unescape_escape s, fun b hb => not_mem_literal hb s, hrun, ?_, fun sep => ?_⟩
  · have hno : Scan.Avoids Scan.commentAt {} (p ++ literal) :=
      (Scan.avoids_append _ _ _ _).2 ⟨hcomment, hnoComment⟩
    rw [← List.append_assoc, stripComment_append (by rw [hrun, houtside]) hno, List.append_assoc]
  · exact splitTop_passed hends (hnoSeparator sep) q

/-- A string of marks that ends in a backslash and is not valid UTF-8, behind a literal and in front of a comment. -/
theorem literal_opaque_marks :
    let s : Text := [92, 59, 34, 44, 93, 40, 10, 0xff, 92]
    let p := ofString "DAT \";\", "
    let q := ofString ", ';' ; end"
    let literal := (Datum.string s).render
    (Scan.run {} p).outside = true ∧ Scan.Avoids Scan.commentAt {} p ∧
    unescape (escape s) = some s ∧ (∀ b ∈ ([10, 13, 9, 0] : Text), b ∉ literal) ∧
    Scan.run {} (p ++ literal) = Scan.run {} p ∧
    stripComment (p ++ (literal ++ q)) = p ++ (literal ++ ofString ", ';' ") ∧
    ∃ start rest, splitTop (byte ',') (p ++ q) = [ofString "DAT \";\"", trim (start ++ rest), ofString "';' ; end"] ∧
      splitTop (byte ',') (p ++ (literal ++ q)) =
        [ofString "DAT \";\"", trim (start ++ (literal ++ rest)), ofString "';' ; end"] := by
  intro s p q literal
  have houtside : (Scan.run {} p).outside = true := by decide +kernel
  have hcomment : Scan.Avoids Scan.commentAt {} p := by decide +kernel
  obtain ⟨hunescape, hbytes, hrun, hstrip, hsplit⟩ := literal_opaque s p q houtside hcomment
  refine ⟨houtside, hcomment, hunescape, hbytes, hrun, hstrip.trans (by decide +kernel), ?_⟩
  obtain ⟨before, start, rest, after, -, -, hbefore, hwithout, hwith⟩ := hsplit (byte ',')
  have hp : splitTop (byte ',') p = [ofString "DAT \";\""] ++ [[]] := by decide +kernel
  have hpq : splitTop (byte ',') (p ++ q) = [ofString "DAT \";\""] ++ [] :: [ofString "';' ; end"] := by decide +kernel
  obtain ⟨rfl, -⟩ := List.append_inj' (hp.symm.trans hbefore) rfl
  obtain ⟨-, rfl⟩ := List.cons.inj (List.append_cancel_left (hpq.symm.trans hwithout))
  exact ⟨start, rest, hwithout, hwith⟩

end Dcpu16.Text
