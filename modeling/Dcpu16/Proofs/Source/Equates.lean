/-
Reading depends on equates by what they answer only. Each way of reading is shown to be the same for two
tables whenever the simpler ways that it is made of are; a relation of tables under which operands, literals and kept
texts read the same, and which a definition does not break, therefore goes through a whole source. That two tables
answer the same for every name is such a relation, so neither the order of their entries nor that of their
insertions counts.
-/
import Dcpu16.Proofs.Table
import Dcpu16.Source.Basic

namespace Dcpu16

namespace Equates

variable {R : Equates → Equates → Prop} {e e' : Equates}

/-- The same fault, or the same result with tables that are related. -/
inductive Outcome (R : Equates → Equates → Prop) {α : Type} :
    Except LineError (α × Equates) → Except LineError (α × Equates) → Prop
  | error (err : LineError) : Outcome R (.error err) (.error err)
  | ok (a : α) {e e' : Equates} (related : R e e') : Outcome R (.ok (a, e)) (.ok (a, e'))

theorem Outcome.map {α β : Type} {x y : Except LineError (α × Equates)} (f : α → β) (h : Outcome R x y) :
    Outcome R (x.map fun p => (f p.1, p.2)) (y.map fun p => (f p.1, p.2)) := by
  cases h with
  | error err => exact .error err
  | ok a related => exact .ok (f a) related

/-! ## From simple to composite -/

theorem register?_congr (h : e.expand = e'.expand) : e.register? = e'.register? := by
  funext word
  rw [register?, register?, h]

variable [Evaluator]

theorem value_congr (h : e.number? = e'.number?) : e.value = e'.value := by
  funext word
  unfold value
  rw [h]

theorem literal_congr (hexpand : e.expand = e'.expand) (hvalue : e.value = e'.value) : e.literal = e'.literal := by
  funext text
  unfold literal
  rw [hexpand, hvalue]

theorem indirection_congr (hregister : e.register? = e'.register?) (hliteral : e.literal = e'.literal) :
    e.indirection = e'.indirection := by
  funext inner
  unfold indirection addressParts registerAndOther?
  rw [hregister, hliteral]

theorem operand_congr (hexpand : e.expand = e'.expand) (hliteral : e.literal = e'.literal) :
    e.operand = e'.operand := by
  funext text
  unfold operand
  rw [hexpand, register?_congr hexpand, hliteral, indirection_congr (register?_congr hexpand) hliteral]

theorem dataOnto_congr (hliteral : e.literal = e'.literal) : e.dataOnto = e'.dataOnto := by
  have hdatum : e.datum = e'.datum := by
    funext item
    unfold datum
    rw [hliteral]
  funext acc items
  induction items generalizing acc with
  | nil => rfl
  | cons item items ih =>
    rw [dataOnto, dataOnto, hdatum]
    cases e'.datum item with
    | ok d => exact ih (d :: acc)
    | error err => rfl

theorem instruction_congr (hoperand : e.operand = e'.operand) : e.instruction = e'.instruction := by
  have hvalue : e.valueOperand = e'.valueOperand := by
    funext text
    rw [valueOperand, valueOperand, hoperand]
  have hdest : e.destinationOperand = e'.destinationOperand := by
    funext text
    rw [destinationOperand, destinationOperand, hoperand]
  funext mnemonic operands
  unfold instruction basic special
  rw [hvalue, hdest]

theorem settle_congr (hexpand : e.expand = e'.expand) (hvalue : e.value = e'.value) : e.settle = e'.settle := by
  funext text
  rw [settle, settle, hexpand, hvalue]

/-! ## Relations that reading keeps -/

/-- Two tables by which every statement reads the same: what an operand, a literal and the value of a definition are,
and which names are defined. -/
structure ReadAlike (e e' : Equates) : Prop where
  operand : e.operand = e'.operand
  literal : e.literal = e'.literal
  settle : e.settle = e'.settle
  defined : ∀ name, (e.get? name).isSome = (e'.get? name).isSome

/-- A relation of tables that read alike, which still holds after the same definition in both. -/
structure Bisimulation (R : Equates → Equates → Prop) : Prop where
  alike : ∀ {e e'}, R e e' → ReadAlike e e'
  insert : ∀ {e e'} (name text : Text), R e e' → R (e.insert name text) (e'.insert name text)

theorem Bisimulation.define (B : Bisimulation R) (h : R e e') (operands : Text) :
    Outcome R ((e.define operands).map (([] : List Instruction), ·)) ((e'.define operands).map ([], ·)) := by
  unfold Equates.define
  simp only [(B.alike h).defined, (B.alike h).settle]
  split_ifs
  · exact .error _
  · exact .error _
  · exact .error _
  · exact .ok [] (B.insert _ _ h)

end Equates

namespace Line

open Equates

variable [Evaluator] {R : Equates → Equates → Prop} {e e' : Equates}

theorem statement_outcome (B : Bisimulation R) (h : R e e') (line : Text) :
    Outcome R (statement e line) (statement e' line) := by
  -- an instruction changes no equates, whatever it is
  have hpure : ∀ x : Except LineError Instruction,
      Outcome R (x.map fun i => ([i], e)) (x.map fun i => ([i], e')) := by
    intro x
    cases x with
    | error err => exact .error err
    | ok i => exact .ok [i] h
  unfold statement data
  simp only [instruction_congr (B.alike h).operand, dataOnto_congr (B.alike h).literal]
  split_ifs
  · exact .ok [] h
  · exact B.define h _
  · exact .error _
  · exact hpure _
  · exact hpure _

theorem parse_outcome (B : Bisimulation R) (h : R e e') (line : Text) : Outcome R (parse e line) (parse e' line) := by
  unfold parse
  cases cutLabels [] line.length line with
  | error err => exact .error err
  | ok p => exact (statement_outcome B h p.2).map (p.1.map Instruction.label ++ ·)

end Line

/-! ## Sources -/

namespace Progress

open Equates

/-- As far, with equates that are related. -/
structure Beside (R : Equates → Equates → Prop) (p q : Progress) : Prop where
  equates : R p.equates q.equates
  located : p.located = q.located
  number : p.number = q.number
  line : p.line = q.line

/-- Two readings that stop at the same fault, or go on, side by side. -/
inductive Abreast (R : Equates → Equates → Prop) :
    Except (LineError × Progress) Progress → Except (LineError × Progress) Progress → Prop
  | error (err : LineError) {p q : Progress} (beside : Beside R p q) : Abreast R (.error (err, p)) (.error (err, q))
  | ok {p q : Progress} (beside : Beside R p q) : Abreast R (.ok p) (.ok q)

variable {R : Equates → Equates → Prop} {p q : Progress}

theorem Beside.fault (h : Beside R p q) (err : SourceError) : p.fault err = q.fault err := by
  rw [Progress.fault, Progress.fault, h.number, h.line]

variable [Evaluator]

theorem step_abreast (B : Bisimulation R) (h : Beside R p q) (raw : Text) : Abreast R (p.step raw) (q.step raw) := by
  unfold step
  simp only [h.number, h.located]
  have hline := Line.parse_outcome B h.equates (Line.clean raw)
  generalize Line.parse p.equates (Line.clean raw) = x at hline
  generalize Line.parse q.equates (Line.clean raw) = y at hline
  cases hline with
  | error err => exact .error err ⟨h.equates, rfl, rfl, rfl⟩
  | ok is related => exact .ok ⟨related, rfl, rfl, rfl⟩

theorem steps_abreast (B : Bisimulation R) (h : Beside R p q) (raws : List Text) :
    Abreast R (p.steps raws) (q.steps raws) := by
  induction raws generalizing p q with
  | nil => exact .ok h
  | cons raw raws ih =>
    rw [steps, steps]
    have hstep := step_abreast B h raw
    generalize p.step raw = x at hstep
    generalize q.step raw = y at hstep
    cases hstep with
    | error err beside => exact .error err beside
    | ok beside => exact ih beside

end Progress

namespace Source

open Equates

variable [Evaluator] {R : Equates → Equates → Prop} {e e' : Equates}

/-- A source reads the same, whatever it is, and leaves equates that are related. -/
theorem read_related (B : Bisimulation R) (h : R e e') (input : Input) :
    (read e input).result = (read e' input).result ∧ (read e input).lines = (read e' input).lines ∧
      R (read e input).equates (read e' input).equates := by
  have hsteps := Progress.steps_abreast B (p := { equates := e }) (q := { equates := e' }) ⟨h, rfl, rfl, rfl⟩ input.lines
  unfold read
  dsimp only
  generalize Progress.steps { equates := e } input.lines = x at hsteps
  generalize Progress.steps { equates := e' } input.lines = y at hsteps
  cases hsteps with
  | error err beside =>
    dsimp only
    rw [beside.fault, beside.number]
    exact ⟨rfl, rfl, beside.equates⟩
  | ok beside =>
    cases input.error? with
    | none =>
      dsimp only
      rw [beside.located]
      exact ⟨rfl, rfl, beside.equates⟩
    | some err =>
      dsimp only
      rw [beside.fault]
      exact ⟨rfl, rfl, beside.equates⟩

end Source

/-! ## Tables that answer the same -/

theorem Equates.expand_same {e e' : Equates} (h : e.Same e') : e.expand = e'.expand := by
  funext word
  rw [expand, expand, h]

theorem Equates.number?_same {e e' : Equates} (h : e.Same e') : e.number? = e'.number? := by
  funext name
  rw [number?, number?, h]

theorem Equates.same_bisimulation [Evaluator] : Bisimulation Table.Same where
  alike {e e'} h := by
    have hexpand := expand_same h
    have hvalue := value_congr (number?_same h)
    have hliteral := literal_congr hexpand hvalue
    exact ⟨operand_congr hexpand hliteral, hliteral, settle_congr hexpand hvalue, fun name => by rw [h]⟩
  insert name text h := h.insert name text

end Dcpu16
