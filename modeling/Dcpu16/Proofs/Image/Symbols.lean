/-
Symbols: the labels of a table by address and then by name. The order is total, and a table has each name once, so
the symbols are determined by what the table answers, whatever the order of its entries.
-/
import Mathlib.Data.List.Nodup
import Mathlib.Tactic.Common
import Dcpu16.Image.Basic
import Dcpu16.Proofs.Table

namespace Dcpu16

/-! ## Texts byte by byte -/

namespace Text

theorem le_cons {x y : UInt8} {t u : Text} :
    le (x :: t) (y :: u) = true ↔ x.toNat < y.toNat ∨ x.toNat = y.toNat ∧ le t u = true := by
  rw [le]
  simp only [UInt8.lt_iff_toNat_lt]
  split_ifs with h1 h2
  · simp [h1]
  · simp [h1, Nat.ne_of_gt h2]
  · simp [show x.toNat = y.toNat by omega]

theorem le_total : ∀ t u : Text, le t u = true ∨ le u t = true
  | [], _ => .inl rfl
  | _ :: _, [] => .inr rfl
  | x :: t, y :: u => by
    have htail := le_total t u
    rw [le_cons, le_cons]
    grind

theorem le_trans : ∀ {t u v : Text}, le t u = true → le u v = true → le t v = true
  | [], _, _, _, _ => rfl
  | _ :: _, [], _, h, _ => by cases h
  | _ :: _, _ :: _, [], _, h => by cases h
  | x :: t, y :: u, z :: v, h1, h2 => by
    have htail := @le_trans t u v
    rw [le_cons] at *
    grind

theorem le_antisymm : ∀ {t u : Text}, le t u = true → le u t = true → t = u
  | [], [], _, _ => rfl
  | [], _ :: _, _, h => by cases h
  | _ :: _, [], h, _ => by cases h
  | x :: t, y :: u, h1, h2 => by
    have htail := @le_antisymm t u
    rw [le_cons] at h1 h2
    rw [List.cons.injEq, ← UInt8.toNat_inj]
    grind

/-- A text before another one is less at the first byte that differs, or ends there. -/
theorem lex_of_le : ∀ {t u : Text}, le t u = true → t ≠ u → List.Lex (fun a b : UInt8 => a.toNat < b.toNat) t u
  | [], [], _, h => absurd rfl h
  | [], _ :: _, _, _ => .nil
  | _ :: _, [], h, _ => by cases h
  | x :: t, y :: u, hle, h => by
    rcases le_cons.1 hle with hlt | ⟨he, htail⟩
    · exact .rel hlt
    · obtain rfl := UInt8.toNat_inj.1 he
      exact .cons (lex_of_le htail fun he => h (by rw [he]))

end Text

/-! ## The order of symbols -/

theorem symbolLe_iff {x y : Text × Word} :
    symbolLe x y = true ↔ x.2.toNat < y.2.toNat ∨ x.2.toNat = y.2.toNat ∧ Text.le x.1 y.1 = true := by
  rw [symbolLe]
  simp only [UInt16.lt_iff_toNat_lt]
  split_ifs with h1 h2
  · simp [h1]
  · simp [h1, Nat.ne_of_gt h2]
  · simp [show x.2.toNat = y.2.toNat by omega]

theorem symbolLe_total (x y : Text × Word) : (symbolLe x y || symbolLe y x) = true := by
  have hnames := Text.le_total x.1 y.1
  rw [Bool.or_eq_true, symbolLe_iff, symbolLe_iff]
  grind

theorem symbolLe_trans (x y z : Text × Word) (h1 : symbolLe x y = true) (h2 : symbolLe y z = true) :
    symbolLe x z = true := by
  have hnames := @Text.le_trans x.1 y.1 z.1
  rw [symbolLe_iff] at *
  grind

theorem symbolLe_antisymm {x y : Text × Word} (h1 : symbolLe x y = true) (h2 : symbolLe y x = true) : x = y := by
  have hnames := @Text.le_antisymm x.1 y.1
  rw [symbolLe_iff] at h1 h2
  rw [Prod.ext_iff, ← UInt16.toNat_inj]
  grind

/-! ## The symbols of a table -/

namespace Table

variable {labels labels' : Table Word}

theorem symbols_perm (labels : Table Word) : labels.symbols.Perm labels.entries := List.mergeSort_perm _ _

theorem symbols_sorted (labels : Table Word) : labels.symbols.Pairwise fun x y => symbolLe x y = true :=
  List.pairwise_mergeSort symbolLe_trans symbolLe_total _

theorem mem_symbols (h : labels.Distinct) (name : Text) (address : Word) :
    (name, address) ∈ labels.symbols ↔ labels.get? name = some address := by
  rw [labels.symbols_perm.mem_iff, get?, lookup_iff_mem h]

/-- By address, then by name, and no two are equal. -/
theorem symbols_increasing (h : labels.Distinct) :
    labels.symbols.Pairwise fun x y => x.2.toNat < y.2.toNat ∨
      x.2.toNat = y.2.toNat ∧ List.Lex (fun a b : UInt8 => a.toNat < b.toNat) x.1 y.1 := by
  have hnames : labels.symbols.Pairwise fun x y => x.1 ≠ y.1 :=
    List.pairwise_map.1 ((labels.symbols_perm.map Prod.fst).nodup_iff.2 h)
  refine labels.symbols_sorted.imp₂ (fun x y hle hne => ?_) hnames
  exact (symbolLe_iff.1 hle).imp id fun ⟨he, hle⟩ => ⟨he, Text.lex_of_le hle hne⟩

/-- Tables that answer the same have the same symbols. -/
theorem symbols_same (h : labels.Distinct) (h' : labels'.Distinct) (same : labels.Same labels') :
    labels.symbols = labels'.symbols := by
  have hmem : ∀ x : Text × Word, x ∈ labels.symbols ↔ x ∈ labels'.symbols := fun x => by
    rw [mem_symbols h x.1 x.2, mem_symbols h' x.1 x.2, same]
  have hperm : labels.symbols.Perm labels'.symbols :=
    (List.perm_ext_iff_of_nodup (labels.symbols_perm.nodup_iff.2 h.of_map)
      (labels'.symbols_perm.nodup_iff.2 h'.of_map)).2 hmem
  exact hperm.eq_of_pairwise (fun x y _ _ => symbolLe_antisymm) labels.symbols_sorted labels'.symbols_sorted

end Table

end Dcpu16
