/-
An assembler that was used before answers like a new one. Its modes and predefines are those that were set last, and
reading starts from them alone, so whatever was read or generated before, with or without success, is forgotten; only
the equates of the last reading can still be asked for. A generator forgets everything but its modes.
-/
import Dcpu16.Proofs.Source.Equates
import Dcpu16.Session

namespace Dcpu16

/-! ## Generators -/

namespace Generator

/-- The strictness that a call sets. -/
def Call.strict? : Call → Option Bool
  | .strict on => some on
  | _ => none

/-- The strictness after calls. -/
def lastStrict (calls : List Call) : Bool := (calls.filterMap Call.strict?).getLastD false

/-- What a generator makes of a program depends on its strictness, not on its draft. -/
theorem generate_eq (g : Generator) (program : List Instruction) :
    (g.generate program).1 = ⟨Dcpu16.generate g.strict program, layoutEvents g.strict program⟩ := by
  have hextend : g.reset.draft.extend g.reset.strict program = layout g.strict program := rfl
  unfold generate Dcpu16.generate layoutEvents
  simp only [hextend]
  cases layout g.strict program with
  | ok d => rfl
  | error e => rfl

theorem next_strict (g : Generator) (call : Call) : (g.next call).strict = call.strict?.getD g.strict := by
  cases call with
  | strict on => rfl
  | verbose on => rfl
  | generate program =>
    unfold next generate
    dsimp only
    split <;> rfl

theorem after_strict (g : Generator) (calls : List Call) :
    (g.after calls).strict = (calls.filterMap Call.strict?).getLastD g.strict :=
  foldl_last next_strict g calls

end Generator

/-! ## What calls leave -/

namespace Assembler

/-- The text that a call predefines for a name. -/
def Call.predefined? (name : Text) : Call → Option Text
  | .predefine n text => if n = name then some text else none
  | _ => none

/-- The strictness that a call sets. -/
def Call.strict? : Call → Option Bool
  | .strict on => some on
  | _ => none

/-- The calls that read a source. -/
def Call.isReading : Call → Bool
  | .parse _ | .assemble _ => true
  | _ => false

/-- The text that was predefined last for a name. -/
def lastPredefined (calls : List Call) (name : Text) : Option Text :=
  (calls.filterMap (Call.predefined? name)).getLast?

/-- The strictness after calls. -/
def lastStrict (calls : List Call) : Bool := (calls.filterMap Call.strict?).getLastD false

/-- These are the names that calls predefined, each once and with its last text, in some order. -/
structure Predefines (calls : List Call) (ps : List (Text × Text)) : Prop where
  once : (ps.map Prod.fst).Nodup
  last : ∀ name text, (name, text) ∈ ps ↔ lastPredefined calls name = some text

/-- A new assembler with some predefines. -/
def fresh (strict verbose : Bool) (ps : List (Text × Text)) : Assembler :=
  ps.foldl (fun a p => a.predefine p.1 p.2) { strict, verbose }

variable [Evaluator]

theorem assemble_eq (a : Assembler) (input : Input) :
    a.assemble input =
      (match (a.parse input).1.result with
        | .error e => ⟨.error (.located e), (a.parse input).1.events⟩
        | .ok s => ⟨(a.generate s).result, (a.parse input).1.events ++ (a.generate s).events⟩,
      (a.parse input).2) := by
  unfold assemble parse
  dsimp only
  cases (Source.read a.initialEquates input).result with
  | error e => rfl
  | ok s => rfl

theorem perform_strict (a : Assembler) (call : Call) : (a.perform call).2.strict = call.strict?.getD a.strict := by
  cases call with
  | assemble input =>
    rw [perform, assemble_eq]
    rfl
  | _ => rfl

theorem perform_predefines (a : Assembler) (call : Call) :
    (a.perform call).2.predefines =
      match call with
      | .predefine name text => a.predefines.insert name text
      | _ => a.predefines := by
  cases call with
  | assemble input =>
    rw [perform, assemble_eq]
    rfl
  | _ => rfl

theorem perform_equates (a : Assembler) {call : Call} (h : call.isReading = false) :
    (a.perform call).2.equates = a.equates := by
  cases call with
  | parse input => cases h
  | assemble input => cases h
  | _ => rfl

theorem after_cons (a : Assembler) (call : Call) (calls : List Call) :
    a.after (call :: calls) = (a.perform call).2.after calls := rfl

theorem after_append (a : Assembler) (calls calls' : List Call) : a.after (calls ++ calls') = (a.after calls).after calls' :=
  List.foldl_append

theorem after_strict (a : Assembler) (calls : List Call) :
    (a.after calls).strict = (calls.filterMap Call.strict?).getLastD a.strict :=
  foldl_last perform_strict a calls

theorem after_predefines (a : Assembler) (calls : List Call) (name : Text) :
    (a.after calls).predefines.get? name = (lastPredefined calls name).or (a.predefines.get? name) := by
  induction calls generalizing a with
  | nil => rfl
  | cons call calls ih =>
    have hstep : (a.perform call).2.predefines.get? name = (call.predefined? name).or (a.predefines.get? name) := by
      rw [perform_predefines]
      cases call with
      | predefine n text =>
        rw [Table.get?_insert, Call.predefined?]
        by_cases hn : n = name
        · rw [if_pos hn, if_pos hn.symm]
          rfl
        · rw [if_neg hn, if_neg (Ne.symm hn)]
          rfl
      | _ => rfl
    rw [after_cons, ih, hstep, ← Option.or_assoc]
    congr 1
    rw [lastPredefined, lastPredefined, List.filterMap_cons]
    cases call.predefined? name with
    | none => rw [Option.or_none]
    | some text => rw [List.getLast?_cons]; cases (calls.filterMap (Call.predefined? name)).getLast? <;> rfl

theorem after_distinct {a : Assembler} (h : a.predefines.Distinct) (calls : List Call) :
    (a.after calls).predefines.Distinct := by
  induction calls generalizing a with
  | nil => exact h
  | cons call calls ih =>
    refine ih ?_
    rw [perform_predefines]
    cases call with
    | predefine name text => exact Table.distinct_insert h name text
    | _ => exact h

theorem after_equates (a : Assembler) {calls : List Call} (h : ∀ call ∈ calls, call.isReading = false) :
    (a.after calls).equates = a.equates := by
  induction calls generalizing a with
  | nil => rfl
  | cons call calls ih =>
    rw [after_cons, ih _ fun c hc => h c (List.mem_cons_of_mem _ hc), perform_equates a (h call List.mem_cons_self)]

/-- The predefines of an assembler are those of the calls. -/
theorem predefines_after (calls : List Call) : Predefines calls (({} : Assembler).after calls).predefines.entries where
  once := after_distinct (by simp [Table.Distinct]) calls
  last name text := by
    rw [← Table.lookup_iff_mem (after_distinct (by simp [Table.Distinct]) calls)]
    exact (after_predefines {} calls name).trans Option.or_none ▸ Iff.rfl

/-! ## Reading starts from the predefines -/

omit [Evaluator] in
theorem fresh_fields (strict verbose : Bool) (ps : List (Text × Text)) :
    (fresh strict verbose ps).strict = strict ∧ (fresh strict verbose ps).predefines = Table.ofList ps := by
  have hall : ∀ a : Assembler, (ps.foldl (fun a p => a.predefine p.1 p.2) a).strict = a.strict ∧
      (ps.foldl (fun a p => a.predefine p.1 p.2) a).predefines = a.predefines.insertAll ps := by
    induction ps with
    | nil => exact fun a => ⟨rfl, rfl⟩
    | cons p ps ih => exact fun a => ih (a.predefine p.1 p.2)
  exact hall { strict, verbose }

omit [Evaluator] in
theorem initialEquates_get? {a : Assembler} (h : a.predefines.Distinct) (name : Text) :
    a.initialEquates.get? name = (a.predefines.get? name).or (systemEquates.get? name) := by
  rw [initialEquates, Table.get?_insertAll, Table.lookup_reverse h]
  rfl

/-- An assembler reads with the same equates as a new one with its predefines. -/
theorem initialEquates_after {calls : List Call} {ps : List (Text × Text)} (h : Predefines calls ps)
    (strict verbose : Bool) :
    (({} : Assembler).after calls).initialEquates.Same (fresh strict verbose ps).initialEquates := by
  intro name
  have hps : (Table.ofList ps).get? name = lastPredefined calls name := by
    rw [Table.ofList, Table.get?_insertAll, Table.lookup_reverse h.once]
    refine Option.or_none.trans (Option.ext fun text => ?_)
    rw [Table.lookup_iff_mem h.once, h.last]
  rw [initialEquates_get? (after_distinct (by simp [Table.Distinct]) calls), initialEquates_get?, after_predefines,
    (fresh_fields strict verbose ps).2, hps]
  · exact congrArg (Option.or · _) Option.or_none
  · rw [(fresh_fields strict verbose ps).2]
    exact Table.distinct_insertAll (by simp [Table.Distinct]) ps

variable {a b : Assembler}

theorem parse_same (h : a.initialEquates.Same b.initialEquates) (input : Input) :
    (a.parse input).1 = (b.parse input).1 ∧ (a.parse input).2.equate? = (b.parse input).2.equate? := by
  obtain ⟨hresult, hlines, hequates⟩ := Source.read_related Equates.same_bisimulation h input
  unfold parse
  dsimp only
  rw [hresult, hlines]
  exact ⟨rfl, funext hequates⟩

omit [Evaluator] in
theorem generate_same (h : a.strict = b.strict) (s : Source) : a.generate s = b.generate s := by
  rw [generate, generate, h]

/-- Assemblers that are as strict and read with the same equates answer the same, but for the equates of an earlier
reading. -/
theorem perform_same (hstrict : a.strict = b.strict) (h : a.initialEquates.Same b.initialEquates) {call : Call}
    (hcall : ∀ name, call ≠ .equate name) : (a.perform call).1 = (b.perform call).1 := by
  cases call with
  | parse input => exact congrArg Answer.source (parse_same h input).1
  | assemble input =>
    rw [perform, perform, assemble_eq, assemble_eq]
    simp only [(parse_same h input).1, generate_same hstrict]
  | generate s => exact congrArg Answer.image (generate_same hstrict s)
  | equate name => exact absurd rfl (hcall name)
  | _ => rfl

theorem perform_reading_same (h : a.initialEquates.Same b.initialEquates) {call : Call} (hcall : call.isReading = true) :
    (a.perform call).2.equate? = (b.perform call).2.equate? := by
  cases call with
  | parse input => exact (parse_same h input).2
  | assemble input =>
    rw [perform, perform, assemble_eq, assemble_eq]
    exact (parse_same h input).2
  | _ => cases hcall

/-! ## Used again and new -/

/-- After any calls, every answer of an assembler but that for an equate is the answer of a new one, as strict as it
is now and with the last text predefined for each name, in any order. An equate is the one that a new assembler
has after the last reading alone, with the predefines before that reading, and there is none before the first. A
generator makes of a program what a new one makes of it that is as strict. -/
theorem reused_eq_fresh (calls : List Call) (verbose : Bool) :
    (∀ ps call, Predefines calls ps → (∀ name, call ≠ .equate name) →
      ((({} : Assembler).after calls).perform call).1 = ((fresh (lastStrict calls) verbose ps).perform call).1) ∧
    (∀ before reading since strict ps name, calls = before ++ reading :: since → reading.isReading = true →
      (∀ call ∈ since, call.isReading = false) → Predefines before ps →
      ((({} : Assembler).after calls).perform (.equate name)).1 =
        (((fresh strict verbose ps).perform reading).2.perform (.equate name)).1) ∧
    (∀ name, (∀ call ∈ calls, call.isReading = false) →
      ((({} : Assembler).after calls).perform (.equate name)).1 = .equate none) ∧
    ∀ (past : List Generator.Call) (program : List Instruction),
      ((({} : Generator).after past).generate program).1 =
        (({ strict := Generator.lastStrict past, verbose } : Generator).generate program).1 := by
  refine ⟨fun ps call hps hcall => ?_, fun before reading since strict ps name hcalls hreading hsince hps => ?_,
    fun name hnone => ?_, fun past program => ?_⟩
  · refine perform_same ?_ (initialEquates_after hps _ _) hcall
    rw [after_strict, (fresh_fields _ _ _).1]
    rfl
  · -- nothing since the reading has touched its equates
    have hequates : (({} : Assembler).after calls).equate? name =
        ((({} : Assembler).after before).perform reading).2.equate? name := by
      rw [hcalls, after_append, after_cons, equate?, after_equates _ hsince, equate?]
    have hsame := perform_reading_same (initialEquates_after hps strict verbose) hreading
    exact congrArg Answer.equate (hequates.trans (congrFun hsame name))
  · have hequates := after_equates ({} : Assembler) hnone
    rw [perform, equate?, hequates]
    rfl
  · rw [Generator.generate_eq, Generator.generate_eq, Generator.after_strict]
    rfl

omit [Evaluator] in
/-- A line that is wrong and an input that fails leave equates behind, which do not show in what is assembled next. What
is predefined after a reading shows in the next one only. A generator that stopped at a repeated label makes the
image of the next program. -/
theorem reused_eq_fresh_after_failures :
    let _ : Evaluator := ⟨fun _ _ => none⟩
    let before : List Call :=
      [.predefine (Text.ofString "n") (Text.ofString "1"), .predefine (Text.ofString "k") (Text.ofString "2"),
        .assemble ⟨Text.ofString ".equ j 3\nSET A, [n\n", none⟩, .strict true,
        .predefine (Text.ofString "n") (Text.ofString "5")]
    let reading : Call := .parse ⟨Text.ofString ":a DAT n\n.equ m n\n", some (Text.ofString "disk")⟩
    let since : List Call := [.predefine (Text.ofString "k") (Text.ofString "9")]
    let a := ({} : Assembler).after (before ++ reading :: since)
    let ps := [(Text.ofString "k", Text.ofString "9"), (Text.ofString "n", Text.ofString "5")]
    let twice : Call := .assemble ⟨Text.ofString ":a DAT k, n\n:a SET A, m\n", none⟩
    let program : List Instruction := [.label (Text.ofString "a"), .data [.word 7]]
    Predefines (before ++ reading :: since) ps ∧
    (a.perform twice).1 = ((fresh true false ps).perform twice).1 ∧
    (a.perform (.equate (Text.ofString "m"))).1 = .equate (some (Text.ofString "0x5")) ∧
    (a.perform (.equate (Text.ofString "k"))).1 = .equate (some (Text.ofString "2")) ∧
    ((({} : Generator).after [.strict true, .generate (program ++ program), .strict false]).generate program).1 =
      (({} : Generator).generate program).1 := by
  intro _ before reading since a ps twice program
  have hps : Predefines (before ++ reading :: since) ps := predefines_after (before ++ reading :: since)
  have hbefore : Predefines before [(Text.ofString "n", Text.ofString "5"), (Text.ofString "k", Text.ofString "2")] :=
    predefines_after before
  obtain ⟨hanswer, hequate, -, hgenerator⟩ := reused_eq_fresh (before ++ reading :: since) false
  refine ⟨hps, hanswer ps twice hps (by simp [twice]), ?_, ?_, hgenerator _ program⟩
  · exact (hequate before reading since false _ _ rfl rfl (by decide) hbefore).trans rfl
  · exact (hequate before reading since false _ _ rfl rfl (by decide) hbefore).trans rfl

end Assembler

end Dcpu16
