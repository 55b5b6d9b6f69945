import Playbook.Instruction.Basic
import Playbook.Proofs.Output.Writes
import Playbook.Proofs.Value.Excerpt

/-!
# Stored addresses

A result that stands for an address still does so once it is merged into whatever its destination
held. The main statement: what an instruction stores at a reference, a later instruction with that
reference as its locator is called on.
-/

namespace Playbook

open Instruction (addressOf?)

/-- A merge stands for the address that the incoming value stands for, whatever it is merged into.
-/
theorem Value.addressOf?_merge {v : Value} {address : String} (old : Value) (hv : v.WellFormed)
    (h : addressOf? v = some address) : addressOf? (old.merge v) = some address := by
  cases v with
  | object fields =>
    obtain ⟨entry, hentry, htext⟩ := Option.bind_eq_some_iff.1 h
    obtain ⟨text⟩ | _ := entry <;> cases htext
    -- A string replaces what the field held, so that no address of the old value is left.
    have hfield : ∀ existing, Fields.get? (mergeFields existing fields) "address" =
        some (.string address) := by
      intro existing
      simp only [get?_mergeFields hv.distinct, hentry]
      cases Fields.get? existing "address" <;> simp [merge]
    simp only [merge]
    split
    · simp [addressOf?, hfield, text?]
    · exact h
  | _ => simpa only [merge] using h

namespace Store

/-- The place that a write succeeds at is read back as the merge into what was read there before. -/
theorem get?_of_set {space : Namespace} {path : String} {v : Value} {store later : Store}
    (hv : v.WellFormed) (h : set space path v store = (.ok (), later)) :
    later.get? space path = some (((store.get? space path).getD .null).merge v) := by
  obtain ⟨hr, old, root, hw, rfl⟩ := set_eq_ok h
  simp only [get?_eq_read?, read?_setRoot_same, Value.lookup_write hw]
  exact congrArg some (merge_held hv hr hw)

end Store

/-- A reference starts with a dollar sign, and an address with a digit. -/
theorem Reference.isAddress_eq_false {text : String} {reference : Reference}
    (h : parse? text = some reference) : isAddress text = false := by
  unfold parse? at h
  unfold isAddress
  split at h
  · rename_i rest htext
    simp [htext]
  · cases h

/-- An instruction is called on the address that its locator leads to in the state. -/
theorem Instruction.address_of_reference {i : Instruction} {store : Store} {locator address : String}
    {reference : Reference} {v : Value} (hi : i.locator = some locator)
    (hp : Reference.parse? locator = some reference)
    (hv : store.get? reference.space reference.path = some v) (ha : addressOf? v = some address) :
    i.address store = .ok (some address) := by
  simp [Instruction.address, hi, Reference.isAddress_eq_false hp, Value.resolve?, hp, hv, ha]

namespace OutputSpec

/-- The specification takes an address to a target: with the whole result that stands for it, or as
the `address` field of a record alone. -/
inductive Delivers (result : Value) (target address : String) : OutputSpec → Prop where
  | whole (h : addressOf? result = some address) : Delivers result target address (.path target)
  | field {record : Fields Value} {targets : Targets} (hr : result = .object record)
      (ha : Fields.get? record "address" = some (.string address))
      (ht : targets.paths = [target]) :
      Delivers result target address (.mapping [("address", targets)])

/-- To deliver an address is to make one write, of a value that stands for it. -/
theorem Delivers.writes_eq {result : Value} {target address : String} {spec : OutputSpec}
    (h : Delivers result target address spec) (hr : result.WellFormed) :
    ∃ v, v.WellFormed ∧ addressOf? v = some address ∧ spec.writes result = [(v, target)] := by
  cases h with
  | whole ha => exact ⟨result, hr, ha, by rw [writes]⟩
  | @field record targets hrecord ha ht =>
    -- The source is a path, which here leads to the field of that name.
    have hpath : Path.parse "address" = [.key "address"] := by decide +kernel
    have hselect : result.select "address" = some (.string address) := by
      simp [hrecord, Value.select, hpath, Value.lookup, Value.child?, ha]
    refine ⟨.string address, trivial, rfl, ?_⟩
    rw [writes]
    simp [sourceWrites, hselect, ht]

/-- Wherever a result is stored that delivers an address, a locator of the same text leads to that
address from then on, whatever was stored there before. -/
theorem delivered_address_located {store later : Store} {spec : OutputSpec} {result : Value}
    {target address : String} (ht : Reference.isReference target = true) (hr : result.WellFormed)
    (hd : Delivers result target address spec) (h : spec.store result store = (.ok (), later))
    (i : Instruction) (hi : i.locator = some target) : i.address later = .ok (some address) := by
  obtain ⟨reference, hp⟩ := Option.isSome_iff_exists.1 ht
  obtain ⟨v, hv, ha, hwrites⟩ := hd.writes_eq hr
  have hset : Store.set reference.space reference.path v store = (.ok (), later) := by
    simp only [store_eq, hwrites, Store.Action.each_singleton, Write.make, writeTo, destination,
      hp] at h
    exact h
  have hread := Store.get?_of_set hv hset
  exact Instruction.address_of_reference hi hp hread (Value.addressOf?_merge _ hv ha)

/-- A deployment is stored over the record of an earlier one, whose other fields stay, and then a
handle over both. -/
theorem delivered_address_located_redeployed :
    let target := "$deployed.token"
    let store := (Store.set .deployed "token"
      (.object [("address", .string "0xold"), ("block", .int 7)]) .empty).2
    let result : Value := .object [("tx", .string "0x1"), ("address", .string "0xnew")]
    let handle : Value := .handle ⟨"Token", some "0xlast"⟩
    let later := ((OutputSpec.path target).store result store).2
    let last := ((OutputSpec.path target).store handle later).2
    let i : Instruction := ⟨none, "Token", some target, "mint", [], .empty, .onInstance⟩
    later.get? .deployed "token" = some (.object
        [("address", .string "0xnew"), ("block", .int 7), ("tx", .string "0x1")]) ∧
      i.address store = .ok (some "0xold") ∧ i.address later = .ok (some "0xnew") ∧
      i.address last = .ok (some "0xlast") := by
  intro target store result handle later last i
  have hr : result.WellFormed := ⟨by decide, trivial, trivial, trivial⟩
  have ht : Reference.isReference target = true := by decide +kernel
  have hold : (i.address store).toOption = some (some "0xold") := by decide +kernel
  have hstored : (OutputSpec.path target).store result store = (.ok (), later) :=
    Outcome.eq_ok_of_toOption (by decide +kernel)
  have hagain : (OutputSpec.path target).store handle later = (.ok (), last) :=
    Outcome.eq_ok_of_toOption (by decide +kernel)
  refine ⟨by decide +kernel, Outcome.toOption_eq_some.1 hold, ?_, ?_⟩
  · exact delivered_address_located ht hr (.whole rfl) hstored i rfl
  · exact delivered_address_located ht (show handle.WellFormed from trivial) (.whole rfl) hagain i rfl

end OutputSpec

end Playbook
