/-
What a listing shows. Its lines, which are written one by one, can be read back: a label by its name, an instruction by its
address and its words. The rows are the pieces into which decoding cuts the image, so that their words are the image,
each once; the labels come in symbol order, each before the first row that ends beyond its address, which is
the row that its address lies in.
-/
import Dcpu16.Proofs.Image.Printing
import Dcpu16.Proofs.Image.Strict
import Dcpu16.Proofs.Text.Numeral

namespace Dcpu16

/-! ## Hexadecimal columns -/

namespace Numeral

/-- A number is read from its digits, whatever zeros stand before them. -/
theorem readDigits_hex (width n : Nat) : readDigits 16 false 0 (hex width n) = some n := by
  have hzeros : ∀ (k : Nat) (whole : Bool),
      readDigits 16 whole 0 (List.replicate k (Text.byte '0') ++ digits 16 n) = some n := by
    intro k
    induction k with
    | zero =>
      intro whole
      rw [List.replicate_zero, List.nil_append, digits, readDigits_digitsOnto _ _ (Nat.lt_succ_self n)]
      rfl
    | succ k ih =>
      intro whole
      have hzero : Text.byte '0' = digit 0 := rfl
      rw [List.replicate_succ, List.cons_append, hzero, readDigits_digit _ _ (by decide)]
      exact ih true
  exact hzeros _ _

theorem digitsOnto_bytes {p : UInt8 → Prop} (hp : ∀ d < 16, p (digit d)) (fuel n : Nat) {acc : Text}
    (hacc : ∀ b ∈ acc, p b) : ∀ b ∈ digitsOnto 16 fuel n acc, p b := by
  induction fuel generalizing n acc with
  | zero => exact hacc
  | succ fuel ih =>
    rw [digitsOnto]
    split_ifs with hn
    · exact List.forall_mem_cons.2 ⟨hp n hn, hacc⟩
    · exact ih _ (List.forall_mem_cons.2 ⟨hp _ (Nat.mod_lt _ (by decide)), hacc⟩)

theorem not_mem_hex {x : UInt8} (hx : ∀ d < 16, digit d ≠ x) (width n : Nat) : x ∉ hex width n := by
  intro hmem
  rcases List.mem_append.1 hmem with hmem | hmem
  · exact hx 0 (by decide) (List.eq_of_mem_replicate hmem).symm
  · exact digitsOnto_bytes (p := (· ≠ x)) hx (n + 1) n (by simp) x hmem rfl

theorem not_mem_hexWord {x : UInt8} (hx : ∀ d < 16, digit d ≠ x) (w : Word) : x ∉ hexWord w := by
  intro hmem
  have hw := w.toNat_lt
  simp only [hexWord, List.mem_cons, List.not_mem_nil, or_false] at hmem
  rcases hmem with he | he | he | he <;> exact hx _ (by omega) he.symm

theorem readDigits_hexWord (w : Word) : readDigits 16 false 0 (hexWord w) = some w.toNat := by
  have hw := w.toNat_lt
  rw [hexWord, readDigits_digit _ _ (by omega), readDigits_digit _ _ (by omega), readDigits_digit _ _ (by omega),
    readDigits_digit _ _ (by omega), readDigits, if_pos rfl]
  congr 1
  omega

end Numeral

/-! ## Reading lines -/

namespace Listing

/-- What a line shows: a label, or the address and the words of an instruction. -/
inductive Shown where
  | label (name : Text)
  | row (address : Nat) (words : List Word)
deriving DecidableEq, Repr

namespace Shown

/-- The words of a column: groups of four digits, with one space between each two. -/
def column : Text → List Word
  | a :: b :: c :: d :: rest =>
    match Numeral.readDigits 16 false 0 [a, b, c, d] with
    | none => []
    | some n =>
      match rest with
      | 32 :: rest => n.toUInt16 :: column rest
      | _ => [n.toUInt16]
  | _ => []

/-- Reads a line: a name after a colon, or an address and, after a colon and a space, the column of words. -/
def ofText? : Text → Option Shown
  | 58 :: t => if t.getLast? = some 10 then some (.label t.dropLast) else none
  | 48 :: 120 :: t =>
    match Text.cutAt? 58 t with
    | some (address, 32 :: rest) => (Numeral.readDigits 16 false 0 address).map (.row · (column rest))
    | _ => none
  | _ => none

/-- The name of a label line. -/
def name? : Shown → Option Text
  | .label name => some name
  | .row .. => none

/-- The address and the words of an instruction line. -/
def row? : Shown → Option (Nat × List Word)
  | .label _ => none
  | .row address words => some (address, words)

/-- The words of the instruction lines, one after the other. -/
def words (lines : List Shown) : List Word := (lines.filterMap row?).flatMap (·.2)

/-- Two spaces end a column. -/
theorem column_join (ws : List Word) (w : Word) (t : Text) :
    column (Text.join [32] ((w :: ws).map Numeral.hexWord) ++ 32 :: 32 :: t) = w :: ws := by
  have hblank : ∀ t, column (32 :: t) = [] := by
    intro t
    rcases t with - | ⟨b, - | ⟨c, - | ⟨d, t⟩⟩⟩ <;> rfl
  have hword : ∀ (w : Word) (t : Text), column (Numeral.hexWord w ++ 32 :: t) = w :: column t := by
    intro w t
    have hread := Numeral.readDigits_hexWord w
    rw [Numeral.hexWord] at hread ⊢
    simp only [List.cons_append, List.nil_append, column, hread]
    rw [show w.toNat.toUInt16 = w from UInt16.ofNat_toNat]
  induction ws generalizing w with
  | nil => rw [List.map_singleton, Text.join, List.flatMap_nil, List.append_nil, hword, hblank]
  | cons v ws ih =>
    have hjoin : Text.join [32] ((w :: v :: ws).map Numeral.hexWord) =
        Numeral.hexWord w ++ 32 :: Text.join [32] ((v :: ws).map Numeral.hexWord) := by
      simp [Text.join]
    rw [hjoin, List.append_assoc, List.cons_append, hword, ih]

end Shown

/-- What a line shows. -/
def Line.shown : Line → Shown
  | .label name => .label name
  | .row d => .row d.address d.words

/-- The column is padded, and followed by two spaces in any case. -/
theorem pad_spaces (width : Nat) (column rest : Text) :
    ∃ t, pad width column ++ Text.ofString "  " ++ rest = column ++ 32 :: 32 :: t := by
  have hspaces : ∀ k : Nat, ∃ t, List.replicate k (Text.byte ' ') ++ 32 :: 32 :: rest = 32 :: 32 :: t := by
    intro k
    rcases k with - | - | k
    · exact ⟨rest, rfl⟩
    · exact ⟨32 :: rest, rfl⟩
    · exact ⟨_, rfl⟩
  obtain ⟨t, ht⟩ := hspaces (width - column.length)
  refine ⟨t, ?_⟩
  rw [← ht]
  simp [pad, Text.ofString, Utf8.encode, Text.byte]

/-- A line is read as what it shows. -/
theorem Line.ofText?_render {l : Line} (h : ∀ d, l = .row d → d.words ≠ []) : Shown.ofText? l.render = some l.shown := by
  cases l with
  | label name =>
    have hcolon : (Line.label name).render = 58 :: (name ++ [10]) := rfl
    rw [hcolon, Shown.ofText?, if_pos List.getLast?_concat, List.dropLast_concat]
    rfl
  | row d =>
    obtain ⟨w, ws, hwords⟩ := List.exists_cons_of_ne_nil (h d rfl)
    obtain ⟨t, ht⟩ := pad_spaces 14 (Text.join (Text.ofString " ") (d.words.map Numeral.hexWord))
      (d.instruction.render ++ [10])
    have hrow : (Line.row d).render = 48 :: 120 :: (Numeral.hex 4 d.address ++ 58 :: 32 ::
        (Text.join (Text.ofString " ") (d.words.map Numeral.hexWord) ++ 32 :: 32 :: t)) := by
      rw [← ht]
      simp [Line.render, Text.ofString, Utf8.encode]
    rw [hrow, Shown.ofText?, Text.cutAt?_append (Numeral.not_mem_hex (by decide) 4 d.address)]
    simp only [Numeral.readDigits_hex, Option.map_some, Line.shown]
    rw [hwords]
    exact congrArg (fun column => some (Shown.row d.address column)) (Shown.column_join ws w t)

/-! ## The lines of a listing -/

/-- The row of a line. -/
def Line.row? : Line → Option Decoded
  | .label _ => none
  | .row d => some d

theorem filterMap_row?_labels (symbols : List (Text × Word)) :
    (symbols.map fun s => Line.label s.1).filterMap Line.row? = [] := by
  simp [Line.row?]

theorem rows_linesFrom (symbols : List (Text × Word)) (ds : List Decoded) :
    (linesFrom symbols ds).filterMap Line.row? = ds := by
  induction ds generalizing symbols with
  | nil => exact filterMap_row?_labels symbols
  | cons d ds ih => rw [linesFrom, List.filterMap_append, filterMap_row?_labels, List.filterMap_cons, ih]; rfl

theorem names_linesFrom (symbols : List (Text × Word)) (ds : List Decoded) :
    (linesFrom symbols ds).filterMap (·.shown.name?) = symbols.map (·.1) := by
  have hlabels : ∀ symbols : List (Text × Word),
      (symbols.map fun s => Line.label s.1).filterMap (·.shown.name?) = symbols.map (·.1) := fun symbols => by
    simp [List.filterMap_map, Line.shown, Shown.name?]
  induction ds generalizing symbols with
  | nil => exact hlabels symbols
  | cons d ds ih =>
    rw [linesFrom, List.filterMap_append, hlabels, List.filterMap_cons, ih]
    exact (List.map_append ..).symm.trans (by rw [List.takeWhile_append_dropWhile])

/-- A label among labels is that of a symbol, and has only labels behind it. -/
theorem exists_symbol {symbols : List (Text × Word)} {before after : List Line} {name : Text}
    (h : symbols.map (fun s => Line.label s.1) = before ++ .label name :: after) :
    ∃ (x : Word) (rest : List (Text × Word)), (name, x) ∈ symbols ∧ after = rest.map fun s => Line.label s.1 := by
  obtain ⟨s₁, s₂, rfl, -, hrest⟩ := List.map_eq_append_iff.1 h
  obtain ⟨s, rest, rfl, hname, rfl⟩ := List.map_eq_cons_iff.1 hrest
  cases hname
  exact ⟨s.2, rest, by simp, rfl⟩

/-- Behind a label the next row is the first one that ends beyond its address. -/
theorem row_after_label {symbols : List (Text × Word)} (hsorted : symbols.Pairwise fun x y => x.2.toNat ≤ y.2.toNat)
    {ds : List Decoded} {before after : List Line} {name : Text}
    (h : linesFrom symbols ds = before ++ .label name :: after) :
    ∃ x, (name, x) ∈ symbols ∧ (after.filterMap Line.row?).head? = ds.find? (x.toNat < ·.stop) := by
  induction ds generalizing symbols before with
  | nil =>
    obtain ⟨x, rest, hx, rfl⟩ := exists_symbol h
    exact ⟨x, hx, by rw [filterMap_row?_labels]; rfl⟩
  | cons d ds ih =>
    rw [linesFrom] at h
    rcases append_eq_append_cons h with ⟨mid, -, hrest⟩ | ⟨mid, hlabels⟩
    · -- the label stands behind this row, since its address lies beyond it
      cases mid with
      | nil => cases hrest
      | cons l mid =>
        obtain ⟨-, hrest⟩ := List.cons.inj hrest
        obtain ⟨x, hx, hhead⟩ := ih (hsorted.sublist (List.dropWhile_sublist _)) hrest
        have hout : d.stop ≤ x.toNat := le_of_mem_dropWhile hsorted hx
        refine ⟨x, (List.dropWhile_sublist _).subset hx, ?_⟩
        rw [hhead, List.find?_cons_of_neg (by simpa using hout)]
    · -- or it is one of those before this row
      obtain ⟨x, rest, hx, rfl⟩ := exists_symbol hlabels
      rw [hlabels, List.append_assoc, List.append_cancel_left_eq] at h
      have hafter : rest.map (fun s => Line.label s.1) ++ .row d :: linesFrom (symbols.dropWhile (below d.stop)) ds = after :=
        (List.cons.inj h).2
      have hin : x.toNat < d.stop := below_iff.1 (List.mem_takeWhile_imp hx)
      refine ⟨x, (List.takeWhile_sublist _).subset hx, ?_⟩
      rw [List.find?_cons_of_pos (by simpa using hin), ← hafter, List.filterMap_append, filterMap_row?_labels]
      rfl

/-! ## The writes of a listing -/

theorem filterMap_row?_shown (ls : List Line) :
    (ls.map Line.shown).filterMap Shown.row? = (ls.filterMap Line.row?).map fun d => (d.address, d.words) := by
  induction ls with
  | nil => rfl
  | cons l ls ih =>
    cases l with
    | label name => exact ih
    | row d => exact congrArg (_ :: ·) ih

theorem words_shown (ls : List Line) :
    Shown.words (ls.map Line.shown) = (ls.filterMap Line.row?).flatMap (·.words) := by
  rw [Shown.words, filterMap_row?_shown, List.flatMap_map]

theorem shown_eq_append_cons {ls : List Line} {before after : List Shown} {x : Shown}
    (h : ls.map Line.shown = before ++ x :: after) :
    ∃ before' l after', ls = before' ++ l :: after' ∧ before = before'.map Line.shown ∧ l.shown = x ∧
      after = after'.map Line.shown := by
  obtain ⟨before', rest, rfl, hbefore, hrest⟩ := List.map_eq_append_iff.1 h
  obtain ⟨l, after', rfl, hl, hafter⟩ := List.map_eq_cons_iff.1 hrest
  exact ⟨before', l, after', rfl, hbefore.symm, hl, hafter.symm⟩

/-- A listing on a sink that never fails. Its lines show the words of the image, each once, and a row's address is
the number of words before it. The names are those of the symbols, by address and then by name, each once. Behind a
label comes first the row that its address lies in, and no row if it lies behind the image. The order in which the
table holds the labels makes no difference. -/
theorem write_shows (words : List Word) (labels : Table Word) (h : labels.Distinct) :
    ∃ shown : List Shown,
      (write words labels {}).1 = .ok () ∧
      (write words labels {}).2.written.toList.map Shown.ofText? = shown.map some ∧
      shown.filterMap Shown.row? = ((decode false words).map fun d => (d.address, d.words)) ∧
      Shown.words shown = words ∧
      (∀ before address ws after, shown = before ++ .row address ws :: after →
        address = (Shown.words before).length) ∧
      shown.filterMap Shown.name? = labels.symbols.map (·.1) ∧
      (labels.symbols.Pairwise fun x y => x.2.toNat < y.2.toNat ∨
        x.2.toNat = y.2.toNat ∧ List.Lex (fun a b : UInt8 => a.toNat < b.toNat) x.1 y.1) ∧
      (∀ name x, (name, x) ∈ labels.symbols ↔ labels.get? name = some x) ∧
      (∀ before name after, shown = before ++ .label name :: after → ∃ x, labels.get? name = some x ∧
        (x.toNat < words.length → ∃ address ws, (after.filterMap Shown.row?).head? = some (address, ws) ∧
          address ≤ x.toNat ∧ x.toNat < address + ws.length) ∧
        (words.length ≤ x.toNat → after.filterMap Shown.row? = [])) ∧
      ∀ labels' : Table Word, labels'.Distinct → labels'.Same labels → write words labels' {} = write words labels {} := by
  have cut := Decode.decode_cut false words
  have hsorted : labels.symbols.Pairwise fun x y => x.2.toNat ≤ y.2.toNat :=
    (Table.symbols_increasing h).imp fun hxy => hxy.elim Nat.le_of_lt fun hxy => Nat.le_of_eq hxy.1
  have hrows : (lines words labels).filterMap Line.row? = decode false words := rows_linesFrom _ _
  obtain ⟨hok, hwritten⟩ := write_never words labels
  refine ⟨(lines words labels).map Line.shown, hok, ?_, ?_, ?_, fun before address ws after hrow => ?_, ?_,
    Table.symbols_increasing h, Table.mem_symbols h, fun before name after hlabel => ?_, fun labels' h' same => ?_⟩
  · rw [hwritten, List.map_map, List.map_map, List.map_inj_left]
    intro l hl
    refine Line.ofText?_render fun d hd => cut.words_ne_nil d ?_
    subst hd
    exact hrows ▸ List.mem_filterMap.2 ⟨_, hl, rfl⟩
  · rw [filterMap_row?_shown, hrows]
  · rw [words_shown, hrows, cut.flatMap_words]
  · obtain ⟨before', l, after', hlines, rfl, hl, -⟩ := shown_eq_append_cons hrow
    cases l with
    | label name => cases hl
    | row d =>
      cases hl
      rw [hlines, List.filterMap_append, List.filterMap_cons] at hrows
      rw [words_shown, cut.address_eq hrows.symm, Nat.zero_add]
  · rw [List.filterMap_map]
    exact names_linesFrom _ _
  · obtain ⟨before', l, after', hlines, -, hl, rfl⟩ := shown_eq_append_cons hlabel
    cases l with
    | row d => cases hl
    | label name =>
      cases hl
      obtain ⟨x, hx, hnext⟩ := row_after_label hsorted hlines
      obtain ⟨hin, hout⟩ := cut.find_stop (x := x.toNat) (Nat.zero_le _)
      rw [Nat.zero_add] at hin hout
      refine ⟨x, (Table.mem_symbols h name x).1 hx, fun hlt => ?_, fun hle => ?_⟩
      · obtain ⟨d, hd, haddress⟩ := hin hlt
        have hstop : x.toNat < d.stop := of_decide_eq_true (List.find?_some (p := fun d : Decoded => x.toNat < d.stop) hd)
        refine ⟨d.address, d.words, ?_, haddress, hstop⟩
        rw [filterMap_row?_shown, List.head?_map, hnext, hd]
        rfl
      · rw [hout hle, List.head?_eq_none_iff] at hnext
        rw [filterMap_row?_shown, hnext, List.map_nil]
  · rw [write_eq, write_eq, lines, lines, Table.symbols_same h' h same]

/-- Five labels: two at the start, one at the second word of an instruction, one at the end and one beyond it. -/
theorem write_shows_labels :
    let words : List Word := [0x7c01, 0x1234, 0x0401]
    let labels : Table Word := Table.ofList [(Text.ofString "far", 9), (Text.ofString "end", 3),
      (Text.ofString "mid", 1), (Text.ofString "b", 0), (Text.ofString "a", 0)]
    labels.Distinct ∧
    (∃ shown : List Shown, shown = [.label (Text.ofString "a"), .label (Text.ofString "b"), .label (Text.ofString "mid"),
        .row 0 [0x7c01, 0x1234], .row 2 [0x0401], .label (Text.ofString "end"), .label (Text.ofString "far")] ∧
      (write words labels {}).2.written.toList.map Shown.ofText? = shown.map some ∧ Shown.words shown = words) ∧
    write words ⟨labels.entries.reverse⟩ {} = write words labels {} := by
  intro words labels
  have hdistinct : labels.Distinct := Table.distinct_insertAll (t := {}) List.nodup_nil _
  have hreverse : (⟨labels.entries.reverse⟩ : Table Word).Distinct := by
    rw [Table.Distinct, List.map_reverse]
    exact List.nodup_reverse.2 hdistinct
  have hsymbols : labels.symbols = [(Text.ofString "a", 0), (Text.ofString "b", 0), (Text.ofString "mid", 1),
      (Text.ofString "end", 3), (Text.ofString "far", 9)] :=
    (labels.symbols_perm.trans (by decide +kernel)).eq_of_pairwise (fun x y _ _ => symbolLe_antisymm)
      labels.symbols_sorted (by decide +kernel)
  obtain ⟨shown, -, hread, -, hwords, -, -, -, -, -, hsame⟩ := write_shows words labels hdistinct
  refine ⟨hdistinct, ⟨shown, ?_, hread, hwords⟩, hsame _ hreverse (Table.lookup_reverse hdistinct)⟩
  rw [write_eq, lines, hsymbols] at hread
  refine List.map_injective_iff.2 (fun _ _ => Option.some.inj) (hread.symm.trans ?_)
  decide +kernel

end Listing

end Dcpu16
