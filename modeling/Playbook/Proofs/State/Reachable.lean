import Mathlib.Logic.Relation
import Playbook.Proofs.Run.Register

/-!
# Reachable states

The states that a program can come to: it starts without a namespace, from inputs or from a
document, and goes on by writes, by storing results, by registering contracts and by runs of
playbooks, each of which may succeed or fail. The main statement: the namespaces of a reachable
state are objects, which stay and only ever append to their names.
-/

namespace Playbook.Store

open Value Relation

/-- One operation on the state, whether it succeeds or fails. -/
inductive Operation (store : Store) : Store → Prop where
  | set (space : Namespace) (path : String) {v : Value} (hv : v.WellFormed) :
      Operation store (Store.set space path v store).2
  | storeResult (spec : OutputSpec) {result : Value} (hr : result.WellFormed) :
      Operation store (spec.store result store).2
  | register (contract : String) : Operation store (Runner.register contract store).2
  | run {σ : Type} {r : Runner σ} {entries : List Entry} (chain : σ) (calls : List Call)
      (hr : r.WellFormed)
      (he : Entry.AllOf Instruction.WellFormed Loop.WellFormed entries) :
      Operation store (r.run entries ⟨store, chain, calls⟩).2.store

/-- The states that operations lead to from the states that a program starts from. -/
inductive Reachable : Store → Prop where
  | empty : Reachable .empty
  | ofInputs {inputs : Fields Value} (hi : (Value.object inputs).WellFormed) :
      Reachable (.ofInputs inputs)
  | ofValue {document : Value} {store : Store} (hd : document.WellFormed)
      (h : Store.ofValue document = .ok store) : Reachable store
  | step {store later : Store} (h : Reachable store) (ho : Operation store later) : Reachable later

/-! ## Where a program starts -/

theorem wellFormed_empty : empty.WellFormed := by
  intro space root h
  cases space <;> cases h

theorem wellFormed_ofInputs {inputs : Fields Value} (h : (Value.object inputs).WellFormed) :
    (ofInputs inputs).WellFormed := by
  intro space root hr
  cases space with
  | inputs => exact Option.some.inj hr ▸ ⟨rfl, h⟩
  | _ => cases hr

theorem wellFormed_mergeRoot {store : Store} {v : Value} (space : Namespace)
    (h : store.WellFormed) (ho : v.isObject = true) (hv : v.WellFormed) :
    (store.mergeRoot space v).WellFormed :=
  wellFormed_setRoot h space (isObject_merge _ ho) (wellFormed_merge (h.root space).2 hv)

theorem wellFormed_addNamespaces {store later : Store} {fields : List (String × Value)}
    (hs : store.WellFormed) (hf : FieldsWellFormed fields)
    (h : store.addNamespaces fields = .ok later) : later.WellFormed := by
  induction fields generalizing store with
  | nil => exact Except.ok.inj h ▸ hs
  | cons entry rest ih =>
    obtain ⟨key, v⟩ := entry
    rw [addNamespaces] at h
    split at h
    · cases h
    · rename_i space _
      split at h
      · rename_i ho
        exact ih (wellFormed_mergeRoot space hs ho hf.1) hf.2 h
      · cases h

theorem wellFormed_ofValue {document : Value} {store : Store} (hd : document.WellFormed)
    (h : ofValue document = .ok store) : store.WellFormed := by
  cases document with
  | object fields => exact wellFormed_addNamespaces wellFormed_empty hd.2 h
  | _ => cases h

/-! ## Operations write -/

/-- Every operation is a sequence of writes. -/
theorem Operation.writes {store later : Store} (h : Operation store later)
    (hs : store.WellFormed) : Writes store later := by
  cases h with
  | set space path hv => exact .set .refl space path hv
  | storeResult spec hr => exact OutputSpec.writes_store spec store hr
  | register contract => exact Runner.writes_register contract store
  | run chain calls hr he => exact Runner.writes_run (w := ⟨store, chain, calls⟩) hr he hs

theorem Reachable.wellFormed {store : Store} (h : Reachable store) : store.WellFormed := by
  induction h with
  | empty => exact wellFormed_empty
  | ofInputs hi => exact wellFormed_ofInputs hi
  | ofValue hd hv => exact wellFormed_ofValue hd hv
  -- An operation is made of writes, and each write keeps the state well-formed.
  | step _ ho ih => exact (ho.writes ih).wellFormed ih

theorem writes_of_operations {store later : Store} (hs : store.WellFormed)
    (h : ReflTransGen Operation store later) : Writes store later := by
  induction h with
  | refl => exact .refl
  | tail _ ho ih => exact ih.trans (ho.writes (ih.wellFormed hs))

/-! ## Namespaces stay -/

/-- In a reachable state every namespace that is present is an object. After any operations it is
present, and its names start with the names that it had. A contract with a plain name that an
instruction has registered is found in the state from then on. -/
theorem reachable_grows {store : Store} (h : Reachable store) :
    (∀ space root, store.root? space = some root → root.isObject = true) ∧
    (∀ later, ReflTransGen Operation store later → ∀ space,
      ((store.root? space).isSome = true → (later.root? space).isSome = true) ∧
        store.keys space <+: later.keys space) ∧
    ∀ {σ : Type} (r : Runner σ) (i : Instruction) (chain : σ) (calls : List Call),
      r.WellFormed → i.WellFormed → PlainKey i.contract →
      ∀ later, ReflTransGen Operation (r.execute i ⟨store, chain, calls⟩).2.store later →
        (later.get? .contracts i.contract).isSome = true := by
  have hs := h.wellFormed
  refine ⟨fun space root hr => (hs space root hr).1, fun later hl => ?_, ?_⟩
  · exact (writes_of_operations hs hl).grows
  · intro σ r i chain calls hr hi hp later hl
    let w : World σ := ⟨store, chain, calls⟩
    have hexecuted : (r.execute i w).2.store.WellFormed :=
      (Runner.writes_execute (w := w) hr hi hs).wellFormed hs
    have hlater := (writes_of_operations hexecuted hl).wellFormed hexecuted
    have hgrows := (writes_of_operations hexecuted hl).grows
    -- The instruction has registered its contract, and writes do not remove names.
    exact hgrows.isSome_get? hexecuted hlater hp (Runner.isSome_get?_execute hr hi hs hp)

/-- An instruction stores its answer among the inputs and registers its contract, which a write that
fails does not undo. -/
theorem reachable_grows_vault :
    let r : Runner Nat := ⟨DryRun.invoker, ArtifactSet.empty.source, .default⟩
    let i : Instruction :=
      ⟨none, "Vault", none, "at", [.string "0x1"], .path "$inputs.vault", .static⟩
    let store := ofInputs [("owner", .string "0xff")]
    let ran := (r.execute i ⟨store, 0, []⟩).2.store
    let later := (set .contracts "Vault[5000]" .null ran).2
    (∃ e, set .contracts "Vault[5000]" .null ran = (.error e, later)) ∧
      (store.keys .inputs <+: later.keys .inputs ∧ later.keys .inputs = ["owner", "vault"]) ∧
      (later.get? .contracts "Vault").isSome = true := by
  intro r i store ran later
  have hreachable : Reachable store := .ofInputs ⟨by decide, trivial, trivial⟩
  have hr : r.WellFormed := DryRun.wellFormed_runner _
  have hi : i.WellFormed := by
    intro v hv
    obtain rfl := List.mem_singleton.1 hv
    trivial
  have hplain : PlainKey i.contract := by
    unfold PlainKey
    decide +kernel
  have hexecuted : ran = (r.run [.instruction i] ⟨store, 0, []⟩).2.store := by decide +kernel
  have hran : Operation store ran := by
    rw [hexecuted]
    exact .run 0 [] hr ⟨hi, trivial⟩
  have hlater : Operation ran later := .set .contracts "Vault[5000]" trivial
  obtain ⟨_, hkeys, hregistered⟩ := reachable_grows hreachable
  refine ⟨?_, ⟨(hkeys later (.tail (.single hran) hlater) .inputs).2, by decide +kernel⟩, ?_⟩
  · have herror : Outcome.error? (set .contracts "Vault[5000]" .null ran).1 =
        some (.resolution (.slot "Vault[5000]" (.beyondPadding 5000 0))) := by decide +kernel
    exact ⟨_, Outcome.eq_error_of_error? herror⟩
  · exact hregistered r i 0 [] hr hi hplain later (.single hlater)

end Playbook.Store
