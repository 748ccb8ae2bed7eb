/-
The names of the machine as texts. Registers and operations have names that could be those of labels, and each is found
again by its name.
-/
import Dcpu16.Proofs.Instruction.WellFormed
import Dcpu16.Proofs.Text.Written

namespace Dcpu16

namespace Register

theorem mem_all {r : Register} (h : r.valid = true) : r ∈ all := by
  cases r with
  | general n => revert n; decide
  | sp => decide
  | pc => decide
  | ex => decide
  | invalid n => cases h

theorem isName_name : ∀ r ∈ all, Text.isName r.name = true := by decide

theorem name_word {r : Register} (h : r.valid = true) : Text.IsWord r.name :=
  Text.isName_word (isName_name r (mem_all h))

theorem ofName_name : ∀ r ∈ all, ofName? (Text.upper r.name) = some r := by decide

end Register

namespace BasicOp

theorem mem_all {op : BasicOp} (h : op.valid = true) : op ∈ all := by
  cases op with
  | invalid n => cases h
  | _ => decide

theorem isName_name : ∀ op ∈ all, Text.isName op.name = true := by decide

theorem ofName_name : ∀ op ∈ all, ofName? (Text.upper op.name) = some op := by decide +kernel

end BasicOp

namespace SpecialOp

theorem mem_all {op : SpecialOp} (h : op.valid = true) : op ∈ all := by
  cases op with
  | invalid n => cases h
  | _ => decide

theorem isName_name : ∀ op ∈ all, Text.isName op.name = true := by decide

theorem ofName_name : ∀ op ∈ all,
    BasicOp.ofName? (Text.upper op.name) = none ∧ ofName? (Text.upper op.name) = some op := by decide +kernel

end SpecialOp

end Dcpu16
