import Playbook.Abi.Cache
import Playbook.Call.Basic
import Playbook.Call.Binder
import Playbook.Instruction.Entry

/-!
# Running playbooks

Entries run strictly in order, each against the state as the ones before it left it. An instruction
registers its contract, is made a call with the help of the artifact of its contract, is answered by
the invoker, and stores the answer. The first failure ends the run, tagged with the summary of its
step; what was written before it stays.
-/

namespace Playbook

/-- What a run relies on. -/
structure Runner (σ : Type) where
  invoker : Invoker σ
  artifacts : ArtifactSource
  coercer : Coercer

/-- What a run changes. -/
structure World (σ : Type) where
  store : Store
  /-- The state of the invoker. -/
  chain : σ
  /-- The calls made so far, oldest first. -/
  calls : List Call

namespace Runner

variable {σ : Type}

/-- A step of a run. A failure keeps the world as it was left. -/
abbrev Action (σ α : Type) : Type :=
  World σ → Except Error α × World σ

/-- Makes the contract known in the state by a handle without address, unless something is there. -/
def register (contract : String) : Store.Action Unit := fun store =>
  if (store.get? .contracts contract).isSome then (.ok (), store)
  else Store.set .contracts contract (.handle ⟨contract, none⟩) store

/-- What the arguments of an instruction are bound to; `link` and `at` need no artifact. -/
def signatureOf (artifacts : ArtifactSource) (i : Instruction) : Except Error (Option Signature) :=
  if i.run = "link" ∨ i.run = "at" then .ok none
  else
    match artifacts i.contract with
    | .error source => .error (.artifact i.contract source)
    | .ok artifact =>
      match artifact.signature? i.run with
      | some signature => .ok (some signature)
      | none => .error (.resolution (.noMethod i.contract i.run))

/-- The instance that an instruction is called on. -/
def instanceOf (i : Instruction) (store : Store) : Except Error (Option String) :=
  match i.kind with
  | .onInstance => i.address store
  | .static => .ok none

/-- The call that an instruction makes as the state stands. -/
def callOf (r : Runner σ) (i : Instruction) (store : Store) : Except Error Call := do
  let address ← instanceOf i store
  let signature ← signatureOf r.artifacts i
  let arguments ← Binder.sort r.coercer signature (i.resolvedInputs store)
  return ⟨i.contract, address, i.run, arguments, i.kind⟩

def make (r : Runner σ) (call : Call) : Action σ Value := fun w =>
  let (answer, chain) := r.invoker call w.chain
  let w := { w with chain, calls := w.calls ++ [call] }
  match answer with
  | .ok result => (.ok result, w)
  | .error source => (.error (.invocation call.contract call.method source), w)

/-- Carries out an instruction; its failures are not tagged yet. -/
def perform (r : Runner σ) (i : Instruction) : Action σ Value := fun w =>
  match register i.contract w.store with
  | (.error e, store) => (.error e, { w with store })
  | (.ok (), store) =>
    let w := { w with store }
    match r.callOf i w.store with
    | .error e => (.error e, w)
    | .ok call =>
      match r.make call w with
      | (.error e, w) => (.error e, w)
      | (.ok result, w) =>
        match i.outputs.store result w.store with
        | (.ok (), store) => (.ok result, { w with store })
        | (.error e, store) => (.error e, { w with store })

def execute (r : Runner σ) (i : Instruction) : Action σ Value := fun w =>
  match r.perform i w with
  | (.ok result, w) => (.ok result, w)
  | (.error e, w) => (.error (e.withinStep i.summary), w)

def executeAll (r : Runner σ) : List Instruction → Action σ (List Value)
  | [] => fun w => (.ok [], w)
  | i :: rest => fun w =>
    match r.execute i w with
    | (.error e, w) => (.error e, w)
    | (.ok result, w) =>
      match r.executeAll rest w with
      | (.error e, w) => (.error e, w)
      | (.ok results, w) => (.ok (result :: results), w)

/-- Expands a loop as the state stands, then carries out its instructions. -/
def runLoop (r : Runner σ) (l : Loop) : Action σ (List Value) := fun w =>
  match l.expand w.store with
  | .error e => (.error (e.withinStep l.summary), w)
  | .ok instructions => r.executeAll instructions w

mutual

/-- Runs an entry. Its result is the answer of an instruction, or the list of results of a loop or a
nested list. -/
def runEntry (r : Runner σ) : Entry → Action σ Value
  | .instruction i => r.execute i
  | .loop l => fun w =>
    match r.runLoop l w with
    | (.ok results, w) => (.ok (.array results), w)
    | (.error e, w) => (.error e, w)
  | .nested entries => fun w =>
    match runEntries r entries w with
    | (.ok results, w) => (.ok (.array results), w)
    | (.error e, w) => (.error e, w)

/-- Runs entries in order; their results in order. -/
def runEntries (r : Runner σ) : List Entry → Action σ (List Value)
  | [] => fun w => (.ok [], w)
  | entry :: rest => fun w =>
    match runEntry r entry w with
    | (.error e, w) => (.error e, w)
    | (.ok result, w) =>
      match runEntries r rest w with
      | (.error e, w) => (.error e, w)
      | (.ok results, w) => (.ok (result :: results), w)

end

/-- Runs a playbook; the results have the nesting of its entries. -/
def run (r : Runner σ) (entries : List Entry) : Action σ Value := fun w =>
  match r.runEntries entries w with
  | (.ok results, w) => (.ok (.array results), w)
  | (.error e, w) => (.error e, w)

end Runner

end Playbook
