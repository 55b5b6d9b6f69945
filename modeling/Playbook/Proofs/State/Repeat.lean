import Playbook.Proofs.State.Set
import Playbook.Proofs.Value.Excerpt

/-!
# Repeated writes

A write that is made again finds every container that it made, filled up or opened the first time,
and merges into the outcome of its first merge. The main statement: neither a merge nor a write that
succeeded changes anything when it is repeated.
-/

namespace Playbook

namespace Value

/-! ## Repeated merges -/

/-- An object is merged into the fields that a value has, as an object or as a handle. -/
theorem merge_fieldsForKey (old : Value) {new : Fields Value} (hd : new.Distinct) :
    old.merge (.object new) = .object (mergeFields old.fieldsForKey new) := by
  rw [merge, fieldsForKey]
  cases old.opened with
  | object fields => rfl
  | _ => exact congrArg object (mergeFields_nil hd).symm

/-- Fields that no entry changes when it is merged into the field of its name stay as they are. -/
theorem mergeFields_of_settled {old new : Fields Value}
    (h : ∀ name v, (name, v) ∈ new → ∃ w, Fields.get? old name = some w ∧ w.merge v = w) :
    mergeFields old new = old := by
  induction new with
  | nil => rw [mergeFields]
  | cons entry rest ih =>
    obtain ⟨name, v⟩ := entry
    obtain ⟨w, hw, hsame⟩ := h name v List.mem_cons_self
    rw [mergeFields, hw]
    dsimp only
    rw [hsame, Fields.put_of_get? hw]
    exact ih fun other u hother => h other u (List.mem_cons_of_mem _ hother)

mutual

/-- A value that was merged changes nothing when it is merged again. -/
theorem merge_merge : ∀ {v : Value}, v.WellFormed → ∀ old : Value,
    (old.merge v).merge v = old.merge v
  | .object new, hv, old => by
    have hfields : ∀ fields, mergeFields (mergeFields fields new) new = mergeFields fields new := by
      intro fields
      -- Each field was merged already, so that the second time it settles.
      refine mergeFields_of_settled fun name v hmem => ?_
      have hget : Fields.get? new name = some v := (Fields.get?_eq_some_iff hv.distinct).2 hmem
      refine ⟨_, by rw [get?_mergeFields hv.distinct, hget], ?_⟩
      cases Fields.get? fields name with
      | some held => exact merge_merge_field hv.2 hget held
      | none =>
        -- A new field was taken as it is, which is what null makes of it.
        have hnull := merge_merge_field hv.2 hget .null
        rwa [merge_of_bare v (.inl rfl)] at hnull
    rw [merge_fieldsForKey old hv.distinct, merge_object, hfields]
  | .null, _, _ | .bool _, _, _ | .number _, _, _ | .bigInt _, _, _ | .date _, _, _
  | .string _, _, _ | .bytes _, _, _ | .array _, _, _ | .handle _, _, _ => by
    rw [merge_of_not_isObject _ rfl, merge_of_not_isObject _ rfl]

theorem merge_merge_field : ∀ {fields : List (String × Value)}, FieldsWellFormed fields →
    ∀ {name : String} {v : Value}, Fields.get? fields name = some v → ∀ old : Value,
      (old.merge v).merge v = old.merge v
  | [], _, _, _, hv, _ => by cases hv
  | (key, w) :: rest, hf, name, v, hv, old => by
    rw [Fields.get?] at hv
    split at hv
    · obtain rfl := Option.some.inj hv
      exact merge_merge hf.1 old
    · exact merge_merge_field hf.2 hv old

end

/-! ## Repeated walks -/

/-- A write whose path leads to a value that it would leave as it is changes nothing. -/
theorem write_of_settled (f : Value → Value) {v w : Value} {path : Path}
    (h : v.lookup path = some w) (hf : f w = w) : write f path v = (.ok w, v) := by
  induction path generalizing v with
  | nil =>
    obtain rfl := Option.some.inj h
    rw [write_nil, hf]
  | cons segment rest ih =>
    obtain ⟨child, hc, hw⟩ := Option.bind_eq_some_iff.1 h
    obtain ⟨hl, hslot⟩ := hop_of_child? hc
    rw [write_of_leads f rest hl, hslot, ih hw, fill_child hc]

end Value

namespace Store

open Value

/-- A merge that is repeated changes nothing, not even the order of names. A write that succeeded
succeeds again, and leaves the state exactly as it is. -/
theorem repeated_write_changes_nothing :
    (∀ old v : Value, v.WellFormed → (old.merge v).merge v = old.merge v) ∧
    ∀ {space : Namespace} {path : String} {v : Value} {store later : Store}, v.WellFormed →
      set space path v store = (.ok (), later) → set space path v later = (.ok (), later) := by
  refine ⟨fun old v hv => merge_merge hv old, fun {space path v store later} hv h => ?_⟩
  obtain ⟨hr, old, root, hw, rfl⟩ := set_eq_ok h
  have hread : root.lookup (Path.parse path) = some (old.merge v) := by simpa using lookup_write hw
  have hagain : ((store.setRoot space root).root space).write (·.merge v) (Path.parse path) =
      (.ok (old.merge v), root) := by
    rw [root_setRoot_same]
    exact write_of_settled _ hread (merge_merge hv old)
  rw [set_of_not_refused hr hagain, setRoot_setRoot]
  rfl

/-- A record that is merged into an item of a list, made and filled up below an opened handle, is
merged there again. -/
theorem repeated_write_changes_nothing_below_handle :
    let v : Value := .object [("tx", .string "0x1"), ("logs", .array [.null])]
    let store : Store :=
      { empty with deployed := some (.object [("vault", .handle ⟨"Vault", some "0xab"⟩)]) }
    let later := (set .deployed "vault.calls[2]" v store).2
    v.WellFormed ∧ set .deployed "vault.calls[2]" v store = (.ok (), later) ∧
      set .deployed "vault.calls[2]" v later = (.ok (), later) ∧
      later.get? .deployed "vault" = some (.object [("contract", .string "Vault"),
        ("address", .string "0xab"), ("calls", .array [.null, .null, v])]) := by
  intro v store later
  have hv : v.WellFormed := ⟨by decide, trivial, ⟨trivial, trivial⟩, trivial⟩
  have hset : set .deployed "vault.calls[2]" v store = (.ok (), later) := rfl
  exact ⟨hv, hset, repeated_write_changes_nothing.2 hv hset, by decide +kernel⟩

end Store

end Playbook
