import Playbook.Call.Basic

/-!
# Dry runs

An invoker that touches nothing. It counts its calls and makes up addresses and transactions from
the count: `new` deploys to a fresh address, `at` binds a handle to its first argument, `link`
answers null, and a call on an instance answers with what was called.
-/

namespace Playbook

namespace DryRun

/-- The address made up for a count. -/
def address (count : Nat) : String :=
  Text.hexPadded 40 count

/-- The transaction made up for a count. -/
def transaction (count : Nat) : String :=
  Text.hexPadded 64 count

/-- The address that `at` binds: its first argument when that is a string, or else the instance. -/
def boundAddress (call : Call) : Option String :=
  (call.arguments.head?.bind Value.text?).or call.address

/-- What a call on an instance answers. -/
def echo (call : Call) (count : Nat) : Value :=
  .object (("contract", .string call.contract) ::
    (match call.address with
      | some address => [("address", .string address)]
      | none => []) ++
    [("method", .string call.method), ("arguments", .array call.arguments),
      ("tx", .string (transaction count))])

/-- The answer to the call that makes the count what it is. -/
def answer (call : Call) (count : Nat) : Value :=
  if call.method = "new" then
    .object [("address", .string (address count)), ("tx", .string (transaction count))]
  else if call.method = "at" then .handle ⟨call.contract, boundAddress call⟩
  else if call.method = "link" then .null
  else echo call count

/-- The invoker of dry runs; its state is the count of calls made, a number of 64 bits. -/
def invoker : Invoker Nat := fun call count =>
  let count := (count + 1) % Text.wordBound
  (.ok (answer call count), count)

end DryRun

end Playbook
