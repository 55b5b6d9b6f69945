import Playbook.Instruction.Basic

/-!
# Calls

A call that is ready to be made, and what stands for the contracts it is made on: an invoker answers
a call with a value or a refusal told in words, and may keep a state of its own.
-/

namespace Playbook

/-- A contract call with its arguments bound. -/
structure Call where
  contract : String
  /-- The deployed instance that is called. -/
  address : Option String
  method : String
  arguments : List Value
  kind : CallKind
  deriving DecidableEq

/-- What is called, in one text. -/
def Call.target (call : Call) : String :=
  match call.address with
  | some address => s!"{call.contract}@{address}.{call.method}"
  | none => s!"{call.contract}.{call.method}"

/-- Answers calls, over a state of type `σ`. -/
abbrev Invoker (σ : Type) : Type :=
  Call → σ → Except String Value × σ

/-- What a result tells of the call: the address and the transaction in it, where it has them. -/
structure CallRecord where
  address : Option String
  transaction : Option String
  value : Value
  deriving DecidableEq

def CallRecord.ofResult (result : Value) : CallRecord :=
  match result with
  | .object fields =>
    let text (name : String) : Option String := (Fields.get? fields name).bind Value.text?
    ⟨text "address", (text "tx").or (text "transactionHash"), result⟩
  | .handle h => ⟨h.address, none, result⟩
  | _ => ⟨none, none, result⟩

end Playbook
