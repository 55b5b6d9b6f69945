import Playbook.State.Store

/-!
# Storing results

A destination that is a reference leads to its namespace, a bare path to the outputs, and a `$`
before anything else is refused. Storing a result is a sequence of writes, which stops at the first
failure and keeps the writes before it.
-/

namespace Playbook

def destination (target : String) : Except Violation (Namespace × String) :=
  match Reference.parse? target with
  | some reference => .ok (reference.space, reference.path)
  | none =>
    if target.toList.head? = some '$' then .error (.foreignDestination target)
    else .ok (.outputs, target)

def writeTo (v : Value) (target : String) : Store.Action Unit := fun store =>
  match destination target with
  | .ok (space, path) => Store.set space path v store
  | .error fault => (.error (.validation fault), store)

namespace OutputSpec

/-- Writes the value at one source path of a result to its targets; a source that the result lacks
is passed over. -/
def storeSource (result : Value) (entry : String × Targets) : Store.Action Unit :=
  match result.select entry.1 with
  | none => fun store => (.ok (), store)
  | some v => Store.Action.each (writeTo v) entry.2.paths

mutual

/-- Stores a result as a specification says. -/
def store (result : Value) : OutputSpec → Store.Action Unit
  | .path target => writeTo result target
  | .mapping sources => Store.Action.each (storeSource result) sources
  | .list specs => storeAll result specs

def storeAll (result : Value) : List OutputSpec → Store.Action Unit
  | [] => fun state => (.ok (), state)
  | spec :: rest => fun state =>
    match store result spec state with
    | (.ok (), state) => storeAll result rest state
    | failed => failed

end

end OutputSpec

end Playbook
