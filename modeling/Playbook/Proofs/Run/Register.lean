import Playbook.Proofs.Run.WellFormed

/-!
# Registering contracts

A contract whose name is a path to that one key is registered in the namespace of contracts under
its name, and only there: an unbound handle is appended, where nothing was stored under the name.
-/

namespace Playbook

open Value

/-- The text spells the path to the key that it is. -/
def PlainKey (name : String) : Prop :=
  Path.parse name = [.key name]

namespace Store

theorem WellFormed.fields {store : Store} (h : store.WellFormed) (space : Namespace) :
    ∃ fields, store.root space = .object fields := by
  have ho := (h.root space).1
  cases hr : store.root space with
  | object fields => exact ⟨fields, rfl⟩
  | _ =>
    rw [hr] at ho
    cases ho

theorem get?_plain {store : Store} {space : Namespace} {name : String} {fields : Fields Value}
    (hp : PlainKey name) (hroot : store.root space = .object fields) :
    store.get? space name = Fields.get? fields name := by
  rw [get?_eq_read?, read?, hp]
  rw [Store.root] at hroot
  cases hr : store.root? space with
  | none =>
    rw [hr] at hroot
    obtain rfl : [] = fields := Value.object.inj hroot
    rfl
  | some root =>
    rw [hr] at hroot
    obtain rfl : root = .object fields := hroot
    exact Option.bind_fun_some (Fields.get? fields name)

/-- Something is stored under a name exactly when it is one of the names of the namespace. -/
theorem isSome_get?_plain {store : Store} {space : Namespace} {name : String}
    (hs : store.WellFormed) (hp : PlainKey name) :
    (store.get? space name).isSome = true ↔ name ∈ store.keys space := by
  obtain ⟨fields, hroot⟩ := hs.fields space
  rw [get?_plain hp hroot, keys, hroot, Value.keys, Fields.mem_names_iff_get?]

theorem Grows.isSome_get? {store later : Store} {space : Namespace} {name : String}
    (h : store.Grows later) (hs : store.WellFormed) (hl : later.WellFormed) (hp : PlainKey name)
    (hsome : (store.get? space name).isSome = true) : (later.get? space name).isSome = true := by
  rw [isSome_get?_plain hs hp] at hsome
  rw [isSome_get?_plain hl hp]
  exact (h space).2.subset hsome

end Store

namespace Runner

theorem register_of_some {contract : String} {store : Store}
    (h : (store.get? .contracts contract).isSome = true) :
    register contract store = (.ok (), store) := by
  rw [register, if_pos h]

theorem register_of_none {contract : String} {store : Store} (hs : store.WellFormed)
    (hp : PlainKey contract) (h : store.get? .contracts contract = none) :
    ∃ fields, store.root .contracts = .object fields ∧
      register contract store = (.ok (), store.setRoot .contracts
        (.object (fields ++ [(contract, .handle ⟨contract, none⟩)]))) := by
  obtain ⟨fields, hroot⟩ := hs.fields .contracts
  refine ⟨fields, hroot, ?_⟩
  rw [Store.get?_plain hp hroot] at h
  -- The name is new, so that its handle comes behind all fields.
  have hnew : contract ∉ Fields.names fields := by
    rw [Fields.mem_names_iff_get?, h]
    simp
  have hr : ¬ Store.Refused contract (.handle ⟨contract, none⟩) := by
    rintro ⟨hnil, _⟩
    rw [hp] at hnil
    cases hnil
  have hwrite : (store.root .contracts).write (·.merge (.handle ⟨contract, none⟩))
      (Path.parse contract) =
      (.ok .null, .object (fields ++ [(contract, .handle ⟨contract, none⟩)])) := by
    rw [hp, hroot, write_key_cons contract [] (show (object fields).shape ≠ .array by simp [shape])]
    simp [fieldsForKey, fieldSlot, h, Fields.put_of_not_mem _ hnew, merge]
  rw [register, Store.get?_plain hp hroot, h, Store.set_of_not_refused hr hwrite]
  rfl

/-- A contract with a plain name is always registered. -/
theorem register_plain {contract : String} {store : Store} (hs : store.WellFormed)
    (hp : PlainKey contract) :
    (register contract store).1 = .ok () ∧
      ((register contract store).2.get? .contracts contract).isSome = true := by
  cases hg : store.get? .contracts contract with
  | some v =>
    have hsome : (store.get? .contracts contract).isSome = true := by rw [hg]; rfl
    rw [register_of_some hsome]
    exact ⟨rfl, hsome⟩
  | none =>
    obtain ⟨fields, hroot, hregister⟩ := register_of_none hs hp hg
    rw [hregister]
    refine ⟨rfl, ?_⟩
    have hroot' : (store.setRoot .contracts
        (.object (fields ++ [(contract, .handle ⟨contract, none⟩)]))).root .contracts =
        .object (fields ++ [(contract, .handle ⟨contract, none⟩)]) := by
      rw [Store.root, Store.root?_setRoot_same]
      rfl
    rw [Store.get?_plain hp hroot', ← Fields.mem_names_iff_get?]
    simp [Fields.names]

/-- An instruction on a contract with a plain name leaves the contract registered, even if it
fails. -/
theorem isSome_get?_execute {σ : Type} {r : Runner σ} {i : Instruction} {w : World σ}
    (hr : r.WellFormed) (hi : i.WellFormed) (hs : w.store.WellFormed)
    (hp : PlainKey i.contract) :
    ((r.execute i w).2.store.get? .contracts i.contract).isSome = true := by
  rw [execute_world]
  have hregistered := (writes_register i.contract w.store).wellFormed hs
  have hwrites := (perform_ends r i w).writes_registered hr hi hs
  exact hwrites.grows.isSome_get? hregistered (hwrites.wellFormed hregistered) hp
    (register_plain hs hp).2

end Runner

end Playbook
