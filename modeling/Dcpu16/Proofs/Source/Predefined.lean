/-
Predefines and definitions of numbers. Nothing that is read tells two texts of one number apart, so tables that differ in
how numbers are written read alike. A line that only defines an equate moves the lines after it by one. Together these
say that a number that is predefined acts like a definition of it in front of the source.
-/
import Dcpu16.Proofs.Source.Accepted
import Dcpu16.Proofs.Source.Equates

namespace Dcpu16

/-! ## Texts of the same number -/

namespace Equates

/-- The same number, which is a word. -/
def SameNumber (t u : Text) : Prop :=
  ∃ n, Numeral.read t = some n ∧ Numeral.read u = some n ∧ (Word.ofInt? n).isSome = true

/-- Tables that differ in how numbers are written only. -/
def SameNumbers (e e' : Equates) : Prop :=
  ∀ name, e.get? name = e'.get? name ∨ ∃ t u, e.get? name = some t ∧ e'.get? name = some u ∧ SameNumber t u

namespace SameNumbers

variable {e e' : Equates}

theorem insert (h : e.SameNumbers e') (name text : Text) : SameNumbers (e.insert name text) (e'.insert name text) := by
  intro other
  rw [Table.get?_insert, Table.get?_insert]
  split
  · exact .inl rfl
  · exact h other

theorem defined (h : e.SameNumbers e') (name : Text) : (e.get? name).isSome = (e'.get? name).isSome := by
  rcases h name with heq | ⟨t, u, ht, hu, -⟩
  · rw [heq]
  · rw [ht, hu]
    rfl

theorem number?_eq (h : e.SameNumbers e') : e.number? = e'.number? := by
  funext name
  rw [number?, number?]
  rcases h name with heq | ⟨t, u, ht, hu, n, hread, hread', -⟩
  · rw [heq]
  · rw [ht, hu, Option.bind_some, Option.bind_some, hread, hread']

/-- A word stands for the same text, or for texts of the same number. -/
theorem expand_cases (h : e.SameNumbers e') (word : Text) :
    e.expand word = e'.expand word ∨ ∃ w, Numeral.Denotes (e.expand word) w ∧ Numeral.Denotes (e'.expand word) w := by
  rw [expand, expand]
  rcases h word with heq | ⟨t, u, ht, hu, n, hread, hread', hword⟩
  · exact .inl (by rw [heq])
  · obtain ⟨w, hw⟩ := Option.isSome_iff_exists.1 hword
    refine .inr ⟨w, ?_, ?_⟩
    · rw [ht]
      exact .of_read hread hw
    · rw [hu]
      exact .of_read hread' hw

theorem register?_eq (h : e.SameNumbers e') : e.register? = e'.register? := by
  funext word
  rcases h.expand_cases word with heq | ⟨w, hw, hw'⟩
  · rw [register?, register?, heq]
  · rw [register_denotes hw, register_denotes hw']

variable [Evaluator]

theorem literal_eq (h : e.SameNumbers e') : e.literal = e'.literal := by
  funext text
  rcases h.expand_cases (Text.trim text) with heq | ⟨w, hw, hw'⟩
  · unfold literal
    rw [heq, value_congr h.number?_eq]
  · rw [literal_denotes hw, literal_denotes hw']

theorem operand_eq (h : e.SameNumbers e') : e.operand = e'.operand := by
  funext text
  rcases h.expand_cases (Text.trim text) with heq | ⟨w, hw, hw'⟩
  · unfold operand
    dsimp only
    rw [heq, h.register?_eq, h.literal_eq, indirection_congr h.register?_eq h.literal_eq]
  · rw [operand_denotes hw, operand_denotes hw']

theorem settle_eq (h : e.SameNumbers e') : e.settle = e'.settle := by
  funext text
  rcases h.expand_cases text with heq | ⟨w, hw, hw'⟩
  · rw [settle, settle, heq, value_congr h.number?_eq]
  · rw [settle_denotes hw, settle_denotes hw']

/-- No use of an equate tells how its number is written. -/
theorem bisimulation : Bisimulation SameNumbers where
  alike h := ⟨h.operand_eq, h.literal_eq, h.settle_eq, h.defined⟩
  insert name text h := h.insert name text

end SameNumbers

end Equates

/-! ## One line later -/

/-- At a place one line later. -/
def Located.later (l : Located) : Located := { l with lineNumber := l.lineNumber + 1 }

/-- The source with all line numbers one larger. -/
def Source.later (s : Source) : Source := { s with lineNumbers := s.lineNumbers.map (· + 1) }

/-- The fault with its line number one larger. -/
def SyntaxError.later (e : SyntaxError) : SyntaxError := { e with lineNumber := e.lineNumber + 1 }

theorem Source.ofLocated_later (ls : List Located) : ofLocated (ls.map Located.later) = (ofLocated ls).later := by
  simp [ofLocated, later, Located.later, Function.comp_def]

namespace Progress

/-- One line further on than another reading, with the same equates. The last line need not be the same. -/
structure Behind (p q : Progress) : Prop where
  equates : q.equates = p.equates
  located : q.located = p.located.map Located.later
  number : q.number = p.number + 1

/-- Two readings that stop at the same line, or go on, one behind the other. -/
inductive Follows : Except (LineError × Progress) Progress → Except (LineError × Progress) Progress → Prop
  | error (err : LineError) {p q : Progress} (behind : Behind p q) (line : q.line = p.line) :
      Follows (.error (err, p)) (.error (err, q))
  | ok {p q : Progress} (behind : Behind p q) : Follows (.ok p) (.ok q)

variable [Evaluator] {p q : Progress}

theorem step_follows (h : Behind p q) (raw : Text) : Follows (p.step raw) (q.step raw) := by
  unfold step
  simp only [h.equates, h.number]
  cases Line.parse p.equates (Line.clean raw) with
  | error err => exact .error err ⟨rfl, h.located, rfl⟩ rfl
  | ok read => exact .ok ⟨rfl, by simp [h.located, Located.later, Function.comp_def], rfl⟩

theorem steps_follows (h : Behind p q) (raws : List Text) : Follows (p.steps raws) (q.steps raws) := by
  induction raws generalizing p q with
  | nil => exact .ok h
  | cons raw raws ih =>
    rw [steps, steps]
    have hstep := step_follows h raw
    generalize p.step raw = x at hstep
    generalize q.step raw = y at hstep
    cases hstep with
    | error err behind line => exact .error err behind line
    | ok behind => exact ih behind

end Progress

/-- A line in front that gives no instruction changes the equates, and the numbers of the lines after it. -/
theorem Source.read_after [Evaluator] {e e' : Equates} {line text : Text} (hline : (10 : UInt8) ∉ line)
    (hfits : ∀ raw ∈ Input.split (line ++ 10 :: text), Input.fits raw = true)
    (hparse : Line.parse e (Line.clean line) = .ok ([], e')) :
    (read e ⟨line ++ 10 :: text, none⟩).result =
      ((read e' ⟨text, none⟩).result.map later).mapError SyntaxError.later := by
  rw [Input.split_line hline, List.forall_mem_cons] at hfits
  have hlines : (⟨line ++ 10 :: text, none⟩ : Input).lines = Input.dropReturn line :: (⟨text, none⟩ : Input).lines := by
    rw [Input.lines, Input.lines, Input.split_line hline, List.takeWhile_cons_of_pos hfits.1, List.map_cons]
  have herror : ∀ t : Text, (∀ raw ∈ Input.split t, Input.fits raw = true) → (⟨t, none⟩ : Input).error? = none := by
    intro t ht
    exact if_pos (List.all_eq_true.2 ht)
  have hstep : Progress.step { equates := e } (Input.dropReturn line) =
      .ok { equates := e', number := 1, line := Line.clean line } := by
    unfold Progress.step
    simp only [Line.clean_dropReturn, hparse]
    simp
  have hsteps := Progress.steps_follows (p := { equates := e' })
    (q := { equates := e', number := 1, line := Line.clean line }) ⟨rfl, by simp, rfl⟩ (⟨text, none⟩ : Input).lines
  unfold read
  simp only [hlines, Progress.steps, hstep, herror text hfits.2]
  rw [herror]
  · generalize Progress.steps { equates := e' } (⟨text, none⟩ : Input).lines = x at hsteps
    generalize Progress.steps { equates := e', number := 1, line := Line.clean line } (⟨text, none⟩ : Input).lines = y
      at hsteps
    cases hsteps with
    | error err behind hlast =>
      simp only [Except.map, Except.mapError, Progress.fault, SyntaxError.later, behind.number, hlast]
      rfl
    | ok behind =>
      simp only [Except.map, Except.mapError, behind.located, Array.toList_map, ofLocated_later]
  · rw [Input.split_line hline, List.forall_mem_cons]
    exact hfits

/-! ## Predefines -/

/-- The line that defines an equate. -/
def Line.definition (name text : Text) : Text := Text.ofString ".equ" ++ ([32] ++ (name ++ ([32] ++ text)))

section Definition

variable {name text : Text} {w : Word}

theorem Line.definition_tidy (hname : Text.isName name = true) (htext : Numeral.Denotes text w) :
    Text.Tidy (definition name text) := by
  have hword : Text.isName (Text.ofString ".equ") = true := rfl
  have hrest := (Text.isName_word hname).piece.toTidy.append htext.piece.toTidy Text.IsGap.space.separates
  exact (Text.isName_word hword).piece.toTidy.append hrest Text.IsGap.space.separates

/-- A number is kept in hexadecimal. -/
theorem Line.parse_numeral [Evaluator] (hname : Text.isName name = true) (hne : name ≠ memorySizeName)
    (htext : Numeral.Denotes text w) :
    parse systemEquates (definition name text) =
      .ok ([], systemEquates.insert name (Text.ofString "0x" ++ Numeral.digits 16 w.toNat)) := by
  have hnone : systemEquates.get? name = none := by rw [Equates.systemEquates_get, if_neg hne]
  have hself : systemEquates.expand text = text := Equates.systemEquates_named.expand_eq htext.not_name
  have hnot : text ≠ name := by
    rintro rfl
    rw [htext.not_name] at hname
    cases hname
  have hrest := (Text.isName_word hname).piece.toTidy.append htext.piece.toTidy Text.IsGap.space.separates
  rw [definition, parse_definition _ (.refl _) Text.IsGap.space.blank (by simp) hname Text.IsGap.space.blank (by simp)
    htext.trim_eq htext.piece.ne_nil hrest.trim_eq, hnone, if_neg (by simp), if_neg hnot,
    Equates.settle_denotes (by rwa [hself])]

end Definition

theorem Word.exists_of_range {n : Int} (h : 0 ≤ n ∧ n ≤ 0xffff) :
    ∃ w : Word, (w.toNat : Int) = n ∧ ofInt? n = some w := by
  have hw : ((UInt16.ofNat n.toNat).toNat : Int) = n := by
    rw [UInt16.toNat_ofNat']
    omega
  refine ⟨UInt16.ofNat n.toNat, hw, ?_⟩
  have hofInt := ofInt_toNat (UInt16.ofNat n.toNat)
  rwa [hw] at hofInt

namespace Assembler

/-- A number that is predefined, however it is written, acts like a line in front of the source that defines it: the same
instructions or the same fault, with all line numbers one larger. -/
theorem parse_predefined [Evaluator] (strict verbose : Bool) (name text source : Text) (n : Int)
    (hname : Text.isName name = true) (hne : name ≠ memorySizeName) (hread : Numeral.read text = some n)
    (hrange : 0 ≤ n ∧ n ≤ 0xffff)
    (hfits : ∀ line ∈ Input.split (Line.definition name text ++ 10 :: source), Input.fits line = true) :
    (({ strict, verbose } : Assembler).parse ⟨Line.definition name text ++ 10 :: source, none⟩).1.result =
      (((({ strict, verbose } : Assembler).predefine name text).parse ⟨source, none⟩).1.result.map Source.later).mapError
        SyntaxError.later := by
  obtain ⟨w, hw, hword⟩ := Word.exists_of_range hrange
  have htext : Numeral.Denotes text w := .of_read hread hword
  have htidy := Line.definition_tidy hname htext
  have hclean : Line.clean (Line.definition name text) = Line.definition name text := by
    rw [Line.clean, htidy.stripComment_eq, htidy.trim_eq]
  have hafter := Source.read_after htidy.oneLine hfits (by rw [hclean]; exact Line.parse_numeral hname hne htext)
  -- the two tables differ at the name only, in the text of one number
  have hsame : Equates.SameNumbers (systemEquates.insert name (Text.ofString "0x" ++ Numeral.digits 16 w.toNat))
      (systemEquates.insert name text) := by
    intro other
    rw [Table.get?_insert, Table.get?_insert]
    split
    · exact .inr ⟨_, _, rfl, rfl, n, hw ▸ Numeral.read_digits w, hread, by rw [hword]; rfl⟩
    · exact .inl rfl
  have hrelated := (Source.read_related Equates.SameNumbers.bisimulation hsame ⟨source, none⟩).1
  rw [hrelated] at hafter
  exact hafter

/-- An equate with the name of a register, with a sign and an underscore in its number, that is used in brackets, by
another equate and in an expression. -/
theorem parse_predefined_register :
    let evaluator : Evaluator := ⟨fun numbers _ => (numbers (Text.ofString "A")).bind Word.ofInt?⟩
    let name := Text.ofString "A"
    let source := Text.ofString "SET [A+B], A\n.equ c A\nDAT $(A*1), c"
    let read : Source :=
      ⟨[.basic .set (.offset (.general 1) (.number 16)) (.immediate (.number 16)), .data [.word 16, .word 16]], [1, 3],
        [Text.ofString "SET [A+B], A", Text.ofString "DAT $(A*1), c"]⟩
    (@Assembler.parse evaluator (({} : Assembler).predefine name (Text.ofString "+0x_10")) ⟨source, none⟩).1.result =
      .ok read ∧
    (@Assembler.parse evaluator {} ⟨Text.ofString ".equ A +0x_10\n" ++ source, none⟩).1.result =
      .ok { read with lineNumbers := [2, 4] } := by
  intro evaluator name source read
  have hread :
      (@Assembler.parse evaluator (({} : Assembler).predefine name (Text.ofString "+0x_10")) ⟨source, none⟩).1.result =
        .ok read := ok_of_toOption (by decide +kernel)
  have hline := @parse_predefined evaluator false false name (Text.ofString "+0x_10") source 16 (by decide) (by decide)
    (by decide) (by decide) (by decide +kernel)
  rw [hread] at hline
  exact ⟨hread, hline⟩

end Assembler

end Dcpu16
