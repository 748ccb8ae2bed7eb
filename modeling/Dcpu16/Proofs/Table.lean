/-
Tables by what they answer: an insertion changes the answer for its own key only, and after a list of
insertions the last value of a key stands. A table that was made by insertions has each key once, so that its
answers say which entries it has. What single steps set is told in the same way: by the last step that sets it.
-/
import Mathlib.Data.List.Nodup
import Mathlib.Tactic.Common
import Dcpu16.Image.Basic

namespace Dcpu16.Table

variable {α : Type}

theorem get?_insert (t : Table α) (key : Text) (value : α) (name : Text) :
    (t.insert key value).get? name = if name = key then some value else t.get? name :=
  lookup_replace key value t.entries name

theorem get?_insertAll (name : Text) (ps : List (Text × α)) (t : Table α) :
    (t.insertAll ps).get? name = (ps.reverse.lookup name).or (t.get? name) := by
  induction ps generalizing t with
  | nil => rfl
  | cons p ps ih =>
    have hstep : t.insertAll (p :: ps) = (t.insert p.1 p.2).insertAll ps := rfl
    rw [hstep, ih, get?_insert, List.reverse_cons, List.lookup_append, Option.or_assoc]
    congr 1
    rw [List.lookup_cons]
    by_cases h : name = p.1
    · simp [h]
    · rw [beq_false_of_ne h, if_neg h]
      rfl

/-! ## Tables that answer the same -/

/-- Two tables have the same value for every key. -/
def Same (t u : Table α) : Prop := ∀ name, t.get? name = u.get? name

theorem Same.insert {t u : Table α} (h : t.Same u) (key : Text) (value : α) :
    (t.insert key value).Same (u.insert key value) := by
  intro name
  rw [get?_insert, get?_insert, h]

/-! ## Each key once -/

/-- No key occurs twice. -/
def Distinct (t : Table α) : Prop := (t.entries.map Prod.fst).Nodup

theorem distinct_insert {t : Table α} (h : t.Distinct) (key : Text) (value : α) : (t.insert key value).Distinct := by
  have hkey : key ∉ (t.entries.filter (·.1 != key)).map Prod.fst := by
    intro hmem
    obtain ⟨p, hp, rfl⟩ := List.mem_map.1 hmem
    simp at hp
  have hrest : ((t.entries.filter (·.1 != key)).map Prod.fst).Nodup := h.sublist (List.filter_sublist.map _)
  exact List.nodup_cons.2 ⟨hkey, hrest⟩

theorem distinct_insertAll {t : Table α} (h : t.Distinct) (ps : List (Text × α)) : (t.insertAll ps).Distinct := by
  induction ps generalizing t with
  | nil => exact h
  | cons p ps ih => exact ih (distinct_insert h p.1 p.2)

theorem lookup_iff_mem {ps : List (Text × α)} (h : (ps.map Prod.fst).Nodup) (name : Text) (value : α) :
    ps.lookup name = some value ↔ (name, value) ∈ ps := by
  induction ps with
  | nil => simp
  | cons p ps ih =>
    rw [List.map_cons, List.nodup_cons] at h
    rw [List.lookup_cons, List.mem_cons]
    by_cases hp : name = p.1
    · -- no later entry has this key
      have hnot : (name, value) ∉ ps := fun hmem => h.1 (List.mem_map.2 ⟨_, hmem, hp⟩)
      rw [hp, beq_self_eq_true] at *
      simp only [Option.some.injEq, hnot, or_false, Prod.ext_iff, true_and, eq_comm]
    · rw [beq_false_of_ne hp, ih h.2, Prod.ext_iff]
      simp only [hp, false_and, false_or]

theorem lookup_reverse {ps : List (Text × α)} (h : (ps.map Prod.fst).Nodup) (name : Text) :
    ps.reverse.lookup name = ps.lookup name := by
  have hreverse : (ps.reverse.map Prod.fst).Nodup := by
    rw [List.map_reverse]
    exact List.nodup_reverse.2 h
  refine Option.ext fun value => ?_
  rw [lookup_iff_mem hreverse, lookup_iff_mem h, List.mem_reverse]

end Dcpu16.Table

namespace Dcpu16

/-- A field that some steps set and the others keep has the value that was set last. -/
theorem foldl_last {σ α β : Type} {step : σ → α → σ} {field : σ → β} {sets : α → Option β}
    (hstep : ∀ s a, field (step s a) = (sets a).getD (field s)) (s : σ) (as : List α) :
    field (as.foldl step s) = (as.filterMap sets).getLastD (field s) := by
  induction as generalizing s with
  | nil => rfl
  | cons a as ih =>
    rw [List.foldl_cons, ih, hstep, List.filterMap_cons]
    cases sets a with
    | none => rfl
    | some value => rw [List.getLastD_cons]; rfl

end Dcpu16
