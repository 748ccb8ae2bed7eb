/-
Writing a listing, line by line. The lines of a listing are the symbols in their order, set among the pieces into
which decoding cuts the image (`lines`). Writing walks over the addresses of the image and strikes out the names that
it has written, so the names that are left are always those of the symbols that are left (`Names.Lists`). Each step
therefore makes the calls for the lines that stand next, and all of them together one call for each line, up to the
first that fails (`write_eq`).
-/
import Mathlib.Data.List.TakeWhile
import Dcpu16.Image.Listing
import Dcpu16.Proofs.Image.Decode
import Dcpu16.Proofs.Image.Symbols

namespace Dcpu16

/-! ## One call after the other -/

namespace Sink

/-- One call for each text, up to the first that fails. -/
def writeAll (s : Sink) : List Text → Except WriteError Unit × Sink
  | [] => (.ok (), s)
  | t :: ts =>
    match s.write t with
    | (.ok (), s) => s.writeAll ts
    | (.error e, s) => (.error e, s)

theorem writeAll_singleton (s : Sink) (t : Text) : s.writeAll [t] = s.write t := by
  rw [writeAll]
  rcases s.write t with ⟨- | -, s'⟩ <;> rfl

theorem writeAll_append_of_ok {s s' : Sink} {ts : List Text} (us : List Text) (h : s.writeAll ts = (.ok (), s')) :
    s.writeAll (ts ++ us) = s'.writeAll us := by
  induction ts generalizing s with
  | nil =>
    cases h
    rfl
  | cons t ts ih =>
    rw [List.cons_append, writeAll]
    rw [writeAll] at h
    rcases hw : s.write t with ⟨e | _, s₁⟩
    · rw [hw] at h
      cases h
    · rw [hw] at h
      exact ih h

theorem writeAll_append_of_error {s s' : Sink} {e : WriteError} {ts : List Text} (us : List Text)
    (h : s.writeAll ts = (.error e, s')) : s.writeAll (ts ++ us) = (.error e, s') := by
  induction ts generalizing s with
  | nil => cases h
  | cons t ts ih =>
    rw [List.cons_append, writeAll]
    rw [writeAll] at h
    rcases hw : s.write t with ⟨e' | _, s₁⟩
    · rw [hw] at h
      exact h
    · rw [hw] at h
      exact ih h

/-- A sink takes the texts before the call that it fails on, and all of them if there is no such call. -/
theorem writeAll_eq (s : Sink) (ts : List Text) :
    s.writeAll ts =
      if s.calls < s.failAt ∧ s.failAt ≤ s.calls + ts.length then
        (.error {}, { s with calls := s.failAt, written := s.written ++ (ts.take (s.failAt - s.calls - 1)).toArray })
      else (.ok (), { s with calls := s.calls + ts.length, written := s.written ++ ts.toArray }) := by
  induction ts generalizing s with
  | nil =>
    rw [if_neg (by rw [List.length_nil]; omega)]
    simp [writeAll]
  | cons t ts ih =>
    rw [writeAll, write, List.length_cons]
    simp only
    by_cases hcall : s.calls + 1 = s.failAt
    · have hnone : s.failAt - s.calls - 1 = 0 := by omega
      rw [if_pos hcall, if_pos (by omega), hnone]
      simp [hcall]
    · rw [if_neg hcall]
      simp only [ih]
      by_cases hlater : s.calls < s.failAt ∧ s.failAt ≤ s.calls + (ts.length + 1)
      · -- the call that fails is one of those for the other texts
        have htake : s.failAt - s.calls - 1 = (s.failAt - (s.calls + 1) - 1) + 1 := by omega
        rw [if_pos hlater, if_pos (by omega), htake]
        simp
      · rw [if_neg hlater, if_neg (by omega)]
        simp [Nat.add_comm, Nat.add_left_comm]

/-- A sink that never fails takes every text. -/
theorem writeAll_never {s : Sink} (h : s.failAt = 0) (ts : List Text) :
    (s.writeAll ts).1 = .ok () ∧ (s.writeAll ts).2.written.toList = s.written.toList ++ ts := by
  rw [writeAll_eq, if_neg (by omega)]
  simp

end Sink

namespace Listing

/-! ## The lines of a listing -/

/-- A symbol lies before an address. -/
def below (n : Nat) (s : Text × Word) : Bool := s.2.toNat.blt n

theorem below_iff {n : Nat} {s : Text × Word} : below n s = true ↔ s.2.toNat < n := by
  rw [below, Nat.blt_eq]

/-- The lines in order: before each row the labels that it ends beyond. -/
def linesFrom : List (Text × Word) → List Decoded → List Line
  | symbols, [] => symbols.map fun s => .label s.1
  | symbols, d :: ds =>
    (symbols.takeWhile (below d.stop)).map (fun s => .label s.1) ++
      .row d :: linesFrom (symbols.dropWhile (below d.stop)) ds

/-- The lines of an image with labels. -/
def lines (words : List Word) (labels : Table Word) : List Line := linesFrom labels.symbols (decode false words)

/-! ## Symbols from an address on -/

section Below

variable {symbols : List (Text × Word)} {a m n : Nat}

theorem takeWhile_below_append (h : m ≤ n) : symbols.takeWhile (below m) ++
    (symbols.dropWhile (below m)).takeWhile (below n) = symbols.takeWhile (below n) := by
  induction symbols with
  | nil => rfl
  | cons x symbols ih =>
    by_cases hx : below m x = true
    · have hn : below n x = true := below_iff.2 (Nat.lt_of_lt_of_le (below_iff.1 hx) h)
      rw [List.takeWhile_cons_of_pos hx, List.dropWhile_cons_of_pos hx, List.takeWhile_cons_of_pos hn, List.cons_append, ih]
    · rw [List.takeWhile_cons_of_neg hx, List.dropWhile_cons_of_neg hx, List.nil_append]

theorem dropWhile_below_dropWhile (h : m ≤ n) :
    (symbols.dropWhile (below m)).dropWhile (below n) = symbols.dropWhile (below n) := by
  induction symbols with
  | nil => rfl
  | cons x symbols ih =>
    by_cases hx : below m x = true
    · have hn : below n x = true := below_iff.2 (Nat.lt_of_lt_of_le (below_iff.1 hx) h)
      rw [List.dropWhile_cons_of_pos hx, List.dropWhile_cons_of_pos hn, ih]
    · rw [List.dropWhile_cons_of_neg hx]

/-- In symbol order, what is left behind an address lies beyond it. -/
theorem le_of_mem_dropWhile (hsorted : symbols.Pairwise fun x y => x.2.toNat ≤ y.2.toNat) {s : Text × Word}
    (hs : s ∈ symbols.dropWhile (below n)) : n ≤ s.2.toNat := by
  induction symbols with
  | nil => cases hs
  | cons x symbols ih =>
    rw [List.pairwise_cons] at hsorted
    rw [List.dropWhile_cons] at hs
    split at hs
    · exact ih hsorted.2 hs
    · rename_i hx
      have hstop : n ≤ x.2.toNat := Nat.not_lt.1 fun h => hx (below_iff.2 h)
      rcases List.mem_cons.1 hs with rfl | hs
      · exact hstop
      · exact hstop.trans (hsorted.1 s hs)

/-- In symbol order, the symbols at the first address are those at the front. -/
theorem filter_first (hsorted : symbols.Pairwise fun x y => x.2.toNat ≤ y.2.toNat)
    (hfrom : ∀ s ∈ symbols, a ≤ s.2.toNat) :
    symbols.filter (·.2.toNat == a) = symbols.takeWhile (below (a + 1)) ∧
    symbols.filter (·.2.toNat != a) = symbols.dropWhile (below (a + 1)) := by
  induction symbols with
  | nil => exact ⟨rfl, rfl⟩
  | cons x symbols ih =>
    rw [List.pairwise_cons] at hsorted
    rw [List.forall_mem_cons] at hfrom
    by_cases hx : x.2.toNat = a
    · obtain ⟨htake, hdrop⟩ := ih hsorted.2 hfrom.2
      have hbelow : below (a + 1) x = true := below_iff.2 (by omega)
      rw [List.takeWhile_cons_of_pos hbelow, List.dropWhile_cons_of_pos hbelow, ← htake, ← hdrop]
      simp [hx]
    · -- all that come after lie beyond the address too
      have hbeyond : ∀ s ∈ x :: symbols, s.2.toNat ≠ a := by
        rw [List.forall_mem_cons]
        refine ⟨hx, fun s hs => ?_⟩
        have hle := hsorted.1 s hs
        omega
      have hbelow : ¬ below (a + 1) x = true := by
        rw [below_iff]
        omega
      rw [List.takeWhile_cons_of_neg hbelow, List.dropWhile_cons_of_neg hbelow, List.filter_eq_nil_iff,
        List.filter_eq_self]
      exact ⟨fun s hs => by simpa using hbeyond s hs, fun s hs => by simpa using hbeyond s hs⟩

end Below

/-! ## The names that are left -/

/-- The names by address are those of symbols in their order. -/
structure Names.Lists (m : Names) (symbols : List (Text × Word)) : Prop where
  sorted : symbols.Pairwise fun x y => symbolLe x y = true
  names : ∀ address, (m.get address).mergeSort Text.le = (symbols.filter (·.2.toNat == address)).map (·.1)
  distinct : (m.entries.map Prod.fst).Nodup
  mem_iff : ∀ address, address ∈ m.entries.map Prod.fst ↔ ∃ s ∈ symbols, s.2.toNat = address

namespace Names

theorem get_add (m : Names) (name : Text) (address other : Nat) :
    (m.add name address).get other = if other = address then m.get address ++ [name] else m.get other := by
  unfold get add
  rw [Table.lookup_replace]
  split_ifs with h
  · rfl
  · rfl

theorem get_erase_of_ne (m : Names) {address other : Nat} (h : other ≠ address) : (m.erase address).get other = m.get other := by
  unfold get erase
  rw [Table.lookup_filter_ne address other h]

theorem get_erase_self (m : Names) (address : Nat) : (m.erase address).get address = [] := by
  have hnone : (m.entries.filter (·.1 != address)).lookup address = none := by
    rw [List.lookup_eq_none_iff]
    intro p hp
    have hne : p.1 ≠ address := by simpa using (List.mem_filter.1 hp).2
    exact bne_iff_ne.2 hne.symm
  unfold get erase
  rw [hnone]
  rfl

theorem mem_keys_erase (m : Names) (address other : Nat) :
    other ∈ (m.erase address).entries.map Prod.fst ↔ other ∈ m.entries.map Prod.fst ∧ other ≠ address := by
  unfold erase
  simp only [List.mem_map, List.mem_filter, bne_iff_ne]
  constructor
  · rintro ⟨p, ⟨hp, hne⟩, rfl⟩
    exact ⟨⟨p, hp, rfl⟩, hne⟩
  · rintro ⟨⟨p, hp, rfl⟩, hne⟩
    exact ⟨p, ⟨hp, hne⟩, rfl⟩

theorem distinct_erase {m : Names} (h : (m.entries.map Prod.fst).Nodup) (address : Nat) :
    ((m.erase address).entries.map Prod.fst).Nodup :=
  h.sublist (List.filter_sublist.map _)

/-- What adding the labels of a table has put together. -/
structure Collects (m : Names) (labels : List (Text × Word)) : Prop where
  names : ∀ address, m.get address = (labels.filter (·.2.toNat == address)).map (·.1)
  distinct : (m.entries.map Prod.fst).Nodup
  mem_iff : ∀ address, address ∈ m.entries.map Prod.fst ↔ ∃ s ∈ labels, s.2.toNat = address

theorem Collects.add {m : Names} {labels : List (Text × Word)} (h : m.Collects labels) (s : Text × Word) :
    (m.add s.1 s.2.toNat).Collects (labels ++ [s]) where
  names address := by
    rw [get_add, List.filter_append, List.map_append]
    split_ifs with heq
    · rw [heq, h.names]
      simp
    · rw [h.names]
      simp [Ne.symm heq]
  distinct := by
    have hkey : s.2.toNat ∉ (m.erase s.2.toNat).entries.map Prod.fst := fun hmem =>
      ((mem_keys_erase m _ _).1 hmem).2 rfl
    exact List.nodup_cons.2 ⟨hkey, distinct_erase h.distinct _⟩
  mem_iff address := by
    have hkeys : (m.add s.1 s.2.toNat).entries.map Prod.fst =
        s.2.toNat :: (m.erase s.2.toNat).entries.map Prod.fst := rfl
    rw [hkeys, List.mem_cons, mem_keys_erase, h.mem_iff]
    constructor
    · rintro (rfl | ⟨⟨x, hx, rfl⟩, -⟩)
      · exact ⟨s, by simp, rfl⟩
      · exact ⟨x, List.mem_append_left _ hx, rfl⟩
    · rintro ⟨x, hx, rfl⟩
      by_cases heq : x.2.toNat = s.2.toNat
      · exact .inl heq
      · refine .inr ⟨⟨x, ?_, rfl⟩, heq⟩
        rcases List.mem_append.1 hx with hx | hx
        · exact hx
        · exact absurd (by rw [List.mem_singleton.1 hx]) heq

theorem ofLabels_collects (labels : Table Word) : (ofLabels labels).Collects labels.entries := by
  have hfold : ∀ (entries : List (Text × Word)) (m : Names) (done : List (Text × Word)), m.Collects done →
      (entries.foldl (fun m label => m.add label.1 label.2.toNat) m).Collects (done ++ entries) := by
    intro entries
    induction entries with
    | nil =>
      intro m done h
      rwa [List.append_nil]
    | cons s entries ih =>
      intro m done h
      have hstep := ih _ _ (h.add s)
      rwa [List.append_assoc] at hstep
  exact hfold labels.entries {} [] ⟨fun _ => rfl, List.nodup_nil, by simp⟩

/-- At the start the names are those of all symbols. -/
theorem ofLabels_lists (labels : Table Word) : (ofLabels labels).Lists labels.symbols := by
  have h := ofLabels_collects labels
  refine ⟨labels.symbols_sorted, fun address => ?_, h.distinct, fun address => ?_⟩
  · rw [h.names]
    have hperm : ((labels.entries.filter (·.2.toNat == address)).map (·.1)).mergeSort Text.le |>.Perm
        ((labels.symbols.filter (·.2.toNat == address)).map (·.1)) :=
      (List.mergeSort_perm _ _).trans ((labels.symbols_perm.symm.filter _).map _)
    refine hperm.eq_of_pairwise (fun x y _ _ => Text.le_antisymm) ?_ ?_
    · have htotal : ∀ x y, (Text.le x y || Text.le y x) = true := fun x y => by
        rw [Bool.or_eq_true]
        exact Text.le_total x y
      exact List.pairwise_mergeSort (fun x y z => @Text.le_trans x y z) htotal _
    · -- symbols at one address are in the order of their names
      rw [List.pairwise_map]
      refine (labels.symbols_sorted.filter _).imp_of_mem fun {x y} hx hy hle => ?_
      have hx : x.2.toNat = address := by simpa using (List.mem_filter.1 hx).2
      have hy : y.2.toNat = address := by simpa using (List.mem_filter.1 hy).2
      rcases symbolLe_iff.1 hle with hlt | ⟨-, hle⟩
      · omega
      · exact hle
  · rw [h.mem_iff]
    simp only [labels.symbols_perm.mem_iff]

namespace Lists

variable {m : Names} {symbols : List (Text × Word)}

theorem sorted_addresses (h : m.Lists symbols) : symbols.Pairwise fun x y => x.2.toNat ≤ y.2.toNat :=
  h.sorted.imp fun hxy => (symbolLe_iff.1 hxy).elim Nat.le_of_lt fun hxy => Nat.le_of_eq hxy.1

/-- Striking out an address leaves the symbols at the others. -/
theorem erase (h : m.Lists symbols) (address : Nat) : (m.erase address).Lists (symbols.filter (·.2.toNat != address)) := by
  refine ⟨h.sorted.filter _, fun other => ?_, distinct_erase h.distinct address, fun other => ?_⟩
  · rw [List.filter_filter]
    by_cases heq : other = address
    · subst heq
      rw [get_erase_self]
      have hnone : symbols.filter (fun s => s.2.toNat == other && s.2.toNat != other) = [] := by simp
      rw [hnone, List.mergeSort_nil, List.map_nil]
    · rw [get_erase_of_ne m heq, h.names]
      congr 1
      refine List.filter_congr fun s _ => ?_
      by_cases hs : s.2.toNat = other
      · simp [hs, heq]
      · simp [hs]
  · rw [mem_keys_erase, h.mem_iff]
    simp only [List.mem_filter, bne_iff_ne]
    constructor
    · rintro ⟨⟨s, hs, rfl⟩, hne⟩
      exact ⟨s, ⟨hs, hne⟩, rfl⟩
    · rintro ⟨s, ⟨hs, hne⟩, rfl⟩
      exact ⟨⟨s, hs, rfl⟩, hne⟩

/-- The addresses that have names are in order, each once. -/
theorem addresses_sorted (h : m.Lists symbols) : m.addresses.Pairwise (· < ·) := by
  have hle : m.addresses.Pairwise fun x y => Nat.ble x y = true := by
    refine List.pairwise_mergeSort (fun x y z hxy hyz => ?_) (fun x y => ?_) _
    · rw [Nat.ble_eq] at *
      exact hxy.trans hyz
    · rw [Bool.or_eq_true, Nat.ble_eq, Nat.ble_eq]
      exact Nat.le_total x y
  have hne : m.addresses.Nodup := (List.mergeSort_perm _ _).nodup_iff.2 h.distinct
  exact hle.imp₂ (fun x y hxy => Nat.lt_of_le_of_ne (Nat.le_of_ble_eq_true hxy)) hne

theorem mem_addresses (h : m.Lists symbols) (address : Nat) :
    address ∈ m.addresses ↔ ∃ s ∈ symbols, s.2.toNat = address := by
  rw [Names.addresses, List.mem_mergeSort, h.mem_iff]

end Lists

end Names

/-! ## Steps of the printer -/

/-- An outcome of writing texts to a sink: the answer and the sink are those of one call for each text, and unless one
failed the names that are left are those of symbols. -/
structure Outcome.Writes (r : Outcome) (s : Sink) (ts : List Text) (symbols : List (Text × Word)) : Prop where
  calls : (r.1, r.2.sink) = s.writeAll ts
  names : r.1 = .ok () → r.2.names.Lists symbols

theorem Outcome.andThen_assoc (r : Outcome) (f g : Printer → Outcome) :
    (r.andThen f).andThen g = r.andThen fun p => (f p).andThen g := by
  rcases r with ⟨_ | _, p⟩ <;> rfl

/-- One step after another makes the calls of both. -/
theorem Outcome.Writes.andThen {r : Outcome} {next : Printer → Outcome} {s : Sink} {ts us : List Text}
    {mid symbols : List (Text × Word)} (h : r.Writes s ts mid)
    (hnext : ∀ p : Printer, p.names.Lists mid → (next p).Writes p.sink us symbols) :
    (r.andThen next).Writes s (ts ++ us) symbols := by
  obtain ⟨answer, p⟩ := r
  obtain ⟨hcalls, hnames⟩ := h
  cases answer with
  | error e => exact ⟨(Sink.writeAll_append_of_error us hcalls.symm).symm, nofun⟩
  | ok _ =>
    obtain ⟨hnextCalls, hnextNames⟩ := hnext p (hnames rfl)
    exact ⟨hnextCalls.trans (Sink.writeAll_append_of_ok us hcalls.symm).symm, hnextNames⟩

/-- The texts of the label lines of symbols. -/
def labelTexts (symbols : List (Text × Word)) : List Text := symbols.map fun s => (Line.label s.1).render

theorem labelTexts_append (xs ys : List (Text × Word)) : labelTexts (xs ++ ys) = labelTexts xs ++ labelTexts ys :=
  List.map_append

theorem render_linesFrom_cons (symbols : List (Text × Word)) (d : Decoded) (ds : List Decoded) :
    (linesFrom symbols (d :: ds)).map Line.render =
      (labelTexts (symbols.takeWhile (below d.stop)) ++ [(Line.row d).render]) ++
        (linesFrom (symbols.dropWhile (below d.stop)) ds).map Line.render := by
  rw [linesFrom, List.map_append, List.map_map, List.map_cons, List.append_assoc]
  rfl

namespace Printer

variable {p : Printer} {symbols : List (Text × Word)}

theorem done_writes (h : p.names.Lists symbols) : Outcome.Writes (.ok (), p) p.sink [] symbols :=
  ⟨rfl, fun _ => h⟩

theorem line_writes (h : p.names.Lists symbols) (l : Line) : (p.line l).Writes p.sink [l.render] symbols :=
  ⟨(Sink.writeAll_singleton _ _).symm, fun _ => h⟩

theorem labelLines_writes (h : p.names.Lists symbols) (names : List Text) :
    (p.labelLines names).Writes p.sink (names.map fun name => (Line.label name).render) symbols := by
  induction names generalizing p with
  | nil => exact done_writes h
  | cons name names ih => exact (line_writes h (.label name)).andThen fun q hq => ih hq

/-- The names at the first address are those of the symbols at the front. -/
theorem labels_writes {address : Nat} (h : p.names.Lists symbols) (hfrom : ∀ s ∈ symbols, address ≤ s.2.toNat) :
    (p.labels address).Writes p.sink (labelTexts (symbols.takeWhile (below (address + 1))))
      (symbols.dropWhile (below (address + 1))) := by
  obtain ⟨htake, hdrop⟩ := filter_first h.sorted_addresses hfrom
  have htexts : ((p.names.get address).mergeSort Text.le).map (fun name => (Line.label name).render) =
      labelTexts (symbols.takeWhile (below (address + 1))) := by
    rw [h.names, List.map_map, htake]
    rfl
  have hlines := labelLines_writes h ((p.names.get address).mergeSort Text.le)
  rw [htexts] at hlines
  have hstrikes : ∀ q : Printer, q.names.Lists symbols →
      Outcome.Writes (.ok (), { q with names := q.names.erase address }) q.sink []
        (symbols.dropWhile (below (address + 1))) :=
    fun q hq => ⟨rfl, fun _ => hdrop ▸ hq.erase address⟩
  have hboth := hlines.andThen hstrikes
  rw [List.append_nil] at hboth
  exact hboth

theorem labelsFrom_writes {address : Nat} (h : p.names.Lists symbols) (hfrom : ∀ s ∈ symbols, address ≤ s.2.toNat)
    (count : Nat) :
    (p.labelsFrom address count).Writes p.sink (labelTexts (symbols.takeWhile (below (address + count))))
      (symbols.dropWhile (below (address + count))) := by
  induction count generalizing p address symbols with
  | zero =>
    have hnone : symbols.takeWhile (below address) = [] ∧ symbols.dropWhile (below address) = symbols := by
      cases symbols with
      | nil => exact ⟨rfl, rfl⟩
      | cons x symbols =>
        have hx : ¬ below address x = true := by
          rw [below_iff]
          exact Nat.not_lt.2 (hfrom x List.mem_cons_self)
        exact ⟨List.takeWhile_cons_of_neg hx, List.dropWhile_cons_of_neg hx⟩
    rw [Nat.add_zero, hnone.1, hnone.2]
    exact done_writes h
  | succ count ih =>
    have hle : address + 1 ≤ address + 1 + count := Nat.le_add_right _ _
    have hnext : address + (count + 1) = address + 1 + count := by omega
    rw [hnext, ← takeWhile_below_append hle, ← dropWhile_below_dropWhile hle, labelTexts_append]
    exact (labels_writes h hfrom).andThen fun q hq => ih hq fun s hs => le_of_mem_dropWhile h.sorted_addresses hs

/-- The names that are left are written in the order of their addresses. -/
theorem labelsAt_writes {addresses : List Nat} (h : p.names.Lists symbols) (hsorted : addresses.Pairwise (· < ·))
    (hmem : ∀ address, address ∈ addresses ↔ ∃ s ∈ symbols, s.2.toNat = address) :
    (p.labelsAt addresses).Writes p.sink (labelTexts symbols) [] := by
  induction addresses generalizing p symbols with
  | nil =>
    have hnone : symbols = [] := List.eq_nil_iff_forall_not_mem.2 fun s hs =>
      List.not_mem_nil ((hmem s.2.toNat).2 ⟨s, hs, rfl⟩)
    subst hnone
    exact done_writes h
  | cons address addresses ih =>
    rw [List.pairwise_cons] at hsorted
    have hfrom : ∀ s ∈ symbols, address ≤ s.2.toNat := by
      intro s hs
      rcases List.mem_cons.1 ((hmem s.2.toNat).2 ⟨s, hs, rfl⟩) with heq | hlater
      · exact Nat.le_of_eq heq.symm
      · exact Nat.le_of_lt (hsorted.1 _ hlater)
    have hparts := labelTexts_append (symbols.takeWhile (below (address + 1))) (symbols.dropWhile (below (address + 1)))
    rw [List.takeWhile_append_dropWhile] at hparts
    rw [hparts]
    refine (labels_writes h hfrom).andThen fun q hq => ih hq hsorted.2 fun other => ?_
    -- the other addresses are those of the symbols behind this one
    constructor
    · intro hother
      obtain ⟨s, hs, rfl⟩ := (hmem other).1 (List.mem_cons_of_mem _ hother)
      have hlt := hsorted.1 _ hother
      rw [← (filter_first h.sorted_addresses hfrom).2]
      exact ⟨s, List.mem_filter.2 ⟨hs, bne_iff_ne.2 (Nat.ne_of_gt hlt)⟩, rfl⟩
    · rintro ⟨s, hs, rfl⟩
      have hle := le_of_mem_dropWhile h.sorted_addresses hs
      rcases List.mem_cons.1 ((hmem _).2 ⟨s, (List.dropWhile_sublist _).subset hs, rfl⟩) with heq | hlater
      · omega
      · exact hlater

theorem flush_writes (h : p.names.Lists symbols) : p.flush.Writes p.sink (labelTexts symbols) [] :=
  labelsAt_writes h h.addresses_sorted h.mem_addresses

/-- An instruction takes the labels before its end and adds its row. -/
theorem instruction_writes {address stop : Nat} (h : p.names.Lists symbols)
    (hfrom : ∀ s ∈ symbols, address ≤ s.2.toNat) (hle : address ≤ stop) (words : Array Word) (i : Instruction) :
    (p.instruction words address stop i).Writes p.sink
      (labelTexts (symbols.takeWhile (below stop)) ++
        [(Line.row ⟨address, (words.extract address stop).toList, i⟩).render]) (symbols.dropWhile (below stop)) := by
  have hlabels := labelsFrom_writes h hfrom (stop - address)
  rw [Nat.add_sub_cancel' hle] at hlabels
  exact hlabels.andThen fun q hq => line_writes hq _

/-- The instructions and what is left behind them. The words before the first of them have been shown, and all symbols
lie from there on. -/
theorem instructions_writes {address : Nat} {rest : List Word} {ds : List Decoded}
    (cut : Decode.Cut false address rest ds) {words before : List Word} (hwords : words = before ++ rest)
    (haddress : before.length = address) (h : p.names.Lists symbols) (hfrom : ∀ s ∈ symbols, address ≤ s.2.toNat) :
    ((p.instructions words.toArray (ds.map fun d => (d.address, d.instruction))).andThen Printer.flush).Writes p.sink
      ((linesFrom symbols ds).map Line.render) [] := by
  induction cut generalizing p symbols before with
  | nil =>
    rw [linesFrom, List.map_map]
    exact flush_writes h
  | @cons address w rest i n ds head tail ih =>
    have hn := Decode.first_within head
    have hlength : (w :: rest.take n).length = 1 + n := by
      rw [List.length_cons, List.length_take]
      omega
    have hsplit : words = (before ++ w :: rest.take n) ++ rest.drop n := by
      rw [hwords, List.append_assoc, List.cons_append, List.take_append_drop]
    have hbefore : (before ++ w :: rest.take n).length = address + 1 + n := by
      rw [List.length_append, hlength, haddress, Nat.add_assoc]
    -- the next instruction, or else the end, is where this one stops
    have hnext : ((ds.map fun d => (d.address, d.instruction)).head?.map Prod.fst).getD words.toArray.size =
        address + 1 + n := by
      rw [List.size_toArray, hsplit, List.length_append, hbefore, List.head?_map, Option.map_map]
      exact tail.head_address
    have hshown : (words.toArray.extract address (address + 1 + n)).toList = w :: rest.take n := by
      have hcount : address + 1 + n - address = (w :: rest.take n).length := by omega
      rw [Array.toList_extract, List.extract_eq_take_drop, hcount, hsplit, List.append_assoc, ← haddress, List.drop_left,
        List.take_left]
    have hinstruction := instruction_writes h hfrom (show address ≤ address + 1 + n by omega) words.toArray i
    rw [hshown] at hinstruction
    have htexts := render_linesFrom_cons symbols ⟨address, w :: rest.take n, i⟩ ds
    have hstop : (⟨address, w :: rest.take n, i⟩ : Decoded).stop = address + 1 + n := by
      rw [Decoded.stop, hlength, Nat.add_assoc]
    rw [hstop] at htexts
    rw [htexts, List.map_cons, instructions, Outcome.andThen_assoc, hnext]
    exact hinstruction.andThen fun q hq => ih hsplit hbefore hq fun s hs => le_of_mem_dropWhile h.sorted_addresses hs

end Printer

/-- A listing is written by one call for each of its lines. -/
theorem write_eq (words : List Word) (labels : Table Word) (s : Sink) :
    write words labels s = s.writeAll ((lines words labels).map Line.render) :=
  (Printer.instructions_writes (Decode.decode_cut false words) (List.nil_append words).symm rfl
    (p := ⟨s, Names.ofLabels labels⟩) (Names.ofLabels_lists labels) fun _ _ => Nat.zero_le _).calls

/-- On a sink that never fails all lines are written. -/
theorem write_never (words : List Word) (labels : Table Word) :
    (write words labels {}).1 = .ok () ∧
      (write words labels {}).2.written.toList = (lines words labels).map Line.render := by
  rw [write_eq]
  exact Sink.writeAll_never rfl _

end Listing

end Dcpu16
