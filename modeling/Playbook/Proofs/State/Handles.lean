import Playbook.Proofs.State.Set

/-!
# Handles on the way of a write

A write that goes on from a handle by a key opens it, so that its contract and its address stay
beside what is written. One that goes on by an index puts a list in its place. The main statement: a
handle on the way of a write is kept exactly when the write goes on from it by a key.
-/

namespace Playbook

/-- What is found in place of a handle after a write that goes on from it by a hop keeps the handle:
it is still the handle, and the write has failed; or it is an object in which the contract is read,
and the address of a bound handle, each unless the hop leads to that very field. -/
def ContractHandle.Kept (h : ContractHandle) (segment : Segment) (failed : Prop)
    (found : Option Value) : Prop :=
  failed ∧ found = some (.handle h) ∨
  ∃ fields, found = some (.object fields) ∧
    (segment ≠ .key "contract" → Fields.get? fields "contract" = some (.string h.contract)) ∧
    ∀ address, h.address = some address → segment ≠ .key "address" →
      Fields.get? fields "address" = some (.string address)

namespace Value

/-- A write that goes on from a handle keeps it exactly when it goes on by a key. -/
theorem kept_write_iff (f : Value → Value) (h : ContractHandle) (segment : Segment) (rest : Path)
    (failed : Prop) :
    h.Kept segment failed (some (write f (segment :: rest) (.handle h)).2) ↔
      ∃ key, segment = .key key := by
  cases segment with
  | key key =>
    -- A key opens the handle, and only the field that it names is written to.
    refine iff_of_true (.inr ?_) ⟨key, rfl⟩
    have hshape : (handle h).shape ≠ .array := by simp [shape]
    rw [write_key_cons key rest hshape]
    refine ⟨_, rfl, fun hne => ?_, fun address ha hne => ?_⟩
    · have hother : "contract" ≠ key := fun e => hne (e ▸ rfl)
      exact (Fields.get?_put_of_ne _ _ hother).trans h.get?_fields_contract
    · have hother : "address" ≠ key := fun e => hne (e ▸ rfl)
      exact (Fields.get?_put_of_ne _ _ hother).trans (by simp [fieldsForKey, h.get?_fields_address, ha])
  | index index =>
    -- An index leaves a list, which is neither the handle nor an object with its fields.
    refine iff_of_false ?_ (by simp)
    have hshape : (handle h).shape ≠ .object := by simp [shape]
    obtain ⟨items, hitems⟩ := write_index_cons f index rest hshape
    rw [hitems]
    rintro (⟨_, hfound⟩ | ⟨fields, hfound, _⟩) <;> cases hfound

end Value

namespace Store

open Value

/-- What a write that goes on from a place makes of the value there. -/
theorem read?_set_append {space : Namespace} {path : String} {store : Store} {q rest : Path}
    {segment : Segment} {w : Value} (v : Value) (hp : Path.parse path = q ++ segment :: rest)
    (hq : store.read? space q = some w) :
    (set space path v store).2.read? space q =
      some (w.write (·.merge v) (segment :: rest)).2 := by
  have hr : ¬ Refused path v := by simp [Refused, hp]
  rw [set_of_not_refused hr rfl, read?_setRoot_same, hp]
  exact (write_append _ (segment :: rest) (lookup_root hq)).2

/-- A handle on the way of a write, into a tree or to the state, is kept exactly when the write goes
on from it by a key, whether it succeeds or fails. -/
theorem handle_kept_iff (h : ContractHandle) (q : Path) (segment : Segment) (rest : Path) :
    (∀ {f : Value → Value} {v : Value}, v.lookup q = some (.handle h) →
      let after := write f (q ++ segment :: rest) v
      (h.Kept segment (∃ e, after.1 = .error e) (after.2.lookup q) ↔ ∃ key, segment = .key key)) ∧
    ∀ {space : Namespace} {path : String} {v : Value} {store : Store},
      Path.parse path = q ++ segment :: rest → store.read? space q = some (.handle h) →
      let after := set space path v store
      (h.Kept segment (∃ e, after.1 = .error e) (after.2.read? space q) ↔
        ∃ key, segment = .key key) := by
  constructor
  · intro f v hq after
    rw [(write_append f (segment :: rest) hq).2]
    exact kept_write_iff f h segment rest _
  · intro space path v store hp hq after
    rw [read?_set_append v hp hq]
    exact kept_write_iff _ h segment rest _

/-- A write that fails below a new field of a handle has opened the handle, whose address is read.
-/
theorem handle_kept_failing :
    let store : Store :=
      { empty with deployed := some (.object [("vault", .handle ⟨"Vault", some "0xab"⟩)]) }
    let after := set .deployed "vault.logs[5000]" .null store
    store.read? .deployed [.key "vault"] = some (.handle ⟨"Vault", some "0xab"⟩) ∧
      after.1.isOk = false ∧ ∃ fields,
        after.2.read? .deployed [.key "vault"] = some (.object fields) ∧
        Fields.get? fields "contract" = some (.string "Vault") ∧
        Fields.get? fields "address" = some (.string "0xab") := by
  intro store after
  have hq : store.read? .deployed [.key "vault"] = some (.handle ⟨"Vault", some "0xab"⟩) := rfl
  have hp : Path.parse "vault.logs[5000]" = [.key "vault"] ++ .key "logs" :: [.index 5000] := by
    decide +kernel
  have hiff := handle_kept_iff ⟨"Vault", some "0xab"⟩ [.key "vault"] (.key "logs") [.index 5000]
  have hkept := (hiff.2 (v := .null) hp hq).2 ⟨"logs", rfl⟩
  obtain ⟨_, hfound⟩ | ⟨fields, hfound, hcontract, haddress⟩ := hkept
  -- It is not kept as it was, so that it is kept as an object.
  · have hopened : after.2.read? .deployed [.key "vault"] ≠ some (.handle ⟨"Vault", some "0xab"⟩) := by
      decide +kernel
    exact absurd hfound hopened
  · exact ⟨hq, rfl, fields, hfound, hcontract (by decide), haddress _ rfl (by decide)⟩

/-- A write at an index below a handle succeeds with a list in place of the handle, in which neither
its contract nor its address is left. -/
theorem handle_lost_to_index :
    let h : ContractHandle := ⟨"Vault", some "0xab"⟩
    let store : Store := { empty with deployed := some (.object [("vault", .handle h)]) }
    let later := (set .deployed "vault[0]" (.string "0x1") store).2
    Path.parse "vault[0]" = [.key "vault"] ++ .index 0 :: [] ∧
      store.read? .deployed [.key "vault"] = some (.handle h) ∧
      set .deployed "vault[0]" (.string "0x1") store = (.ok (), later) ∧
      later.read? .deployed [.key "vault"] = some (.array [.string "0x1"]) ∧
      ¬ h.Kept (.index 0) False (later.read? .deployed [.key "vault"]) := by
  intro h store later
  have hread : later.read? .deployed [.key "vault"] = some (.array [.string "0x1"]) := by
    decide +kernel
  refine ⟨by decide +kernel, rfl, rfl, hread, ?_⟩
  rw [hread]
  rintro (⟨_, hfound⟩ | ⟨fields, hfound, _⟩) <;> cases hfound

end Store

end Playbook
