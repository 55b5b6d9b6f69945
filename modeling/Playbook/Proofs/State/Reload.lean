import Playbook.Proofs.State.Reachable
import Playbook.Proofs.Value.Plain

/-!
# Reloading a dump

The document that the state exports to can be read back as a state. The state that is read back
holds the plain value of whatever the first one holds, exports to the same document, and leads the
same locators to the same addresses.
-/

namespace Playbook

open Value

namespace Store

/-- The document of some of the namespaces, with plain values. -/
def plainRoots (store : Store) (spaces : List Namespace) : Fields Value :=
  spaces.filterMap fun space => (store.root? space).map fun root => (space.keyword, root.plain)

theorem plain_toValue (store : Store) :
    store.toValue.plain = .object (store.plainRoots Namespace.all) := by
  rw [toValue, plain_object, plainRoots, plainFields, List.map_filterMap]
  congr 2
  funext space
  cases store.root? space <;> rfl

/-- The second state holds the plain values of the roots of the first one. -/
def PlainOf (store reloaded : Store) : Prop :=
  ∀ space, reloaded.root? space = (store.root? space).map plain

theorem parse?_keyword (space : Namespace) : Namespace.parse? space.keyword = some space := by
  cases space <;> decide

/-- Into a namespace that is absent, the plain value of a well-formed object is taken as it is. -/
theorem addNamespaces_cons_plain {start : Store} {space : Namespace} {root : Value}
    (rest : Fields Value) (hn : start.root? space = none) (ho : root.isObject = true)
    (hw : root.WellFormed) :
    start.addNamespaces ((space.keyword, root.plain) :: rest) =
      (start.setRoot space root.plain).addNamespaces rest := by
  cases root with
  | object fields =>
    have hdistinct : (plainFields fields).Distinct := by
      rw [Fields.Distinct, names_plainFields]
      exact hw.1
    -- The plain root is merged into an empty object, which takes it over as its names are distinct.
    have hmerge : start.mergeRoot space (.object (plainFields fields)) =
        start.setRoot space (.object (plainFields fields)) := by
      have hroot : start.root space = .object [] := by rw [root, hn]; rfl
      rw [mergeRoot, hroot, merge_object, mergeFields_nil hdistinct]
    rw [plain_object, addNamespaces, parse?_keyword, ← hmerge]
    rfl
  | _ => cases ho

/-- Plain roots are read into a state in which their namespaces are absent. -/
theorem addNamespaces_plainRoots {store : Store} (hs : store.WellFormed)
    {spaces : List Namespace} (hd : spaces.Nodup) {start : Store}
    (hn : ∀ space ∈ spaces, start.root? space = none) :
    ∃ later, start.addNamespaces (store.plainRoots spaces) = .ok later ∧
      ∀ space, later.root? space =
        if space ∈ spaces then (store.root? space).map plain else start.root? space := by
  induction spaces generalizing start with
  | nil => exact ⟨start, rfl, fun space => by simp⟩
  | cons space rest ih =>
    obtain ⟨hnew, hrest⟩ := List.nodup_cons.1 hd
    obtain ⟨habsent, hn⟩ := List.forall_mem_cons.1 hn
    cases hroot : store.root? space with
    | none =>
      -- An absent namespace is not in the export, and the reading goes on with the same state.
      have hskip : store.plainRoots (space :: rest) = store.plainRoots rest := by
        simp [plainRoots, hroot]
      obtain ⟨later, hl, hr⟩ := ih hrest hn
      refine ⟨later, hskip ▸ hl, fun other => ?_⟩
      rw [hr other]
      by_cases he : other = space
      · subst he
        simp [hnew, habsent, hroot]
      · simp [he]
    | some root =>
      have htake : store.plainRoots (space :: rest) =
          (space.keyword, root.plain) :: store.plainRoots rest := by
        simp [plainRoots, hroot]
      -- The other namespaces are still absent after this one was set.
      have hnext : ∀ other ∈ rest, (start.setRoot space root.plain).root? other = none := by
        intro other hother
        have hne : other ≠ space := by
          rintro rfl
          exact hnew hother
        rw [root?_setRoot_of_ne start _ hne, hn other hother]
      obtain ⟨later, hl, hr⟩ := ih hrest hnext
      obtain ⟨ho, hw⟩ := hs space root hroot
      refine ⟨later, ?_, fun other => ?_⟩
      · rw [htake, addNamespaces_cons_plain _ habsent ho hw]
        exact hl
      · rw [hr other]
        by_cases he : other = space
        · subst he
          simp [hnew, hroot]
        · simp [he, root?_setRoot_of_ne start _ he]

/-- A well-formed state is read back from its export with the plain values of its roots. -/
theorem exists_reload {store : Store} (hs : store.WellFormed) :
    ∃ reloaded, ofValue store.toValue.plain = .ok reloaded ∧ store.PlainOf reloaded := by
  have hd : Namespace.all.Nodup := by decide
  have hn : ∀ space ∈ Namespace.all, empty.root? space = none :=
    fun space _ => by cases space <;> rfl
  obtain ⟨reloaded, hl, hr⟩ := addNamespaces_plainRoots hs hd hn
  refine ⟨reloaded, ?_, fun space => ?_⟩
  · rw [plain_toValue]
    exact hl
  · rw [hr space, if_pos (Namespace.mem_all space)]

/-! ## What a reloaded state holds -/

variable {store reloaded : Store}

theorem PlainOf.toJson_toValue (h : store.PlainOf reloaded) :
    reloaded.toValue.toJson = store.toValue.toJson := by
  have hdocument : reloaded.toValue = store.toValue.plain := by
    rw [plain_toValue, toValue, plainRoots]
    congr 2
    funext space
    rw [h space]
    cases store.root? space <;> rfl
  rw [hdocument, toJson_plain]

theorem PlainOf.get? (h : store.PlainOf reloaded) {space : Namespace} {path : String} {v : Value}
    (hv : store.get? space path = some v) : reloaded.get? space path = some v.plain := by
  obtain ⟨root, hr, hl⟩ := Option.bind_eq_some_iff.1 hv
  rw [Store.get?, h space, hr]
  exact lookup_plain hl

/-- The address that a value stands for, its plain value stands for too. -/
theorem addressOf?_plain {v : Value} {address : String}
    (h : Instruction.addressOf? v = some address) :
    Instruction.addressOf? v.plain = some address := by
  cases v with
  | string text => exact h
  | object fields =>
    obtain ⟨w, hg, ht⟩ := Option.bind_eq_some_iff.1 h
    rw [plain_object, Instruction.addressOf?, get?_plainFields, hg]
    cases w with
    | string text => exact ht
    | _ => cases ht
  -- A handle is exported as an object, whose address field is read in its place.
  | handle handle =>
    obtain ⟨contract, bound⟩ := handle
    obtain rfl : bound = some address := h
    rw [plain_handle]
    simp [Instruction.addressOf?, ContractHandle.fields, Fields.get?, text?]
  | _ => cases h

/-- A locator leads to the same address in a reloaded state. -/
theorem PlainOf.bind_addressOf? (h : store.PlainOf reloaded) {locator address : String}
    (ha : ((Value.string locator).resolve? store).bind Instruction.addressOf? = some address) :
    ((Value.string locator).resolve? reloaded).bind Instruction.addressOf? = some address := by
  obtain ⟨v, hv, hfound⟩ := Option.bind_eq_some_iff.1 ha
  rw [Value.resolve?] at hv ⊢
  cases hp : Reference.parse? locator with
  | none =>
    rw [hp] at hv
    obtain rfl := Option.some.inj hv
    exact hfound
  -- A reference reads the plain value in the second state.
  | some reference =>
    rw [hp] at hv
    have hread : reloaded.get? reference.space reference.path = some v.plain := h.get? hv
    dsimp only
    rw [hread]
    exact addressOf?_plain hfound

theorem PlainOf.address (h : store.PlainOf reloaded) {i : Instruction} {address : Option String}
    (ha : i.address store = .ok address) : i.address reloaded = .ok address := by
  rw [Instruction.address] at ha ⊢
  cases hlocator : i.locator with
  | none =>
    rw [hlocator] at ha
    exact ha
  | some locator =>
    rw [hlocator] at ha
    dsimp only at ha ⊢
    -- An address that is written out is not looked up in any state.
    by_cases hliteral : isAddress locator = true
    · rw [if_pos hliteral] at ha ⊢
      exact ha
    · rw [if_neg hliteral] at ha ⊢
      cases hfound : ((Value.string locator).resolve? store).bind Instruction.addressOf? with
      | none =>
        rw [hfound] at ha
        cases ha
      | some found =>
        rw [hfound] at ha
        rw [h.bind_addressOf? hfound]
        exact ha

/-- A reachable state can be read back from its export. What is read back exports to the same
document, holds the plain value of whatever the state holds at a path, and leads every locator that
leads to an address to the same address. -/
theorem reload_reachable (h : Reachable store) :
    ∃ reloaded, ofValue (.ofJson store.toValue.toJson) = .ok reloaded ∧
      reloaded.toValue.toJson = store.toValue.toJson ∧
      (∀ space path v, store.get? space path = some v →
        reloaded.get? space path = some (.ofJson v.toJson)) ∧
      ∀ (i : Instruction) (address : Option String), i.address store = .ok address →
        i.address reloaded = .ok address := by
  obtain ⟨reloaded, hload, hplain⟩ := exists_reload h.wellFormed
  refine ⟨reloaded, hload, hplain.toJson_toValue, fun space path v hv => ?_, fun i address ha => ?_⟩
  · exact hplain.get? hv
  · exact hplain.address ha

/-- A locator that leads to a handle leads to its address when the handle is an object. -/
theorem reload_reachable_handle :
    let store : Store := (set .deployed "vault" (.handle ⟨"Vault", some "0xab"⟩) .empty).2
    let i : Instruction := ⟨none, "Vault", some "$deployed.vault", "open", [], .empty, .onInstance⟩
    Reachable store ∧
      store.get? .deployed "vault" = some (.handle ⟨"Vault", some "0xab"⟩) ∧
      i.address store = .ok (some "0xab") ∧
      ∃ reloaded, ofValue (.ofJson store.toValue.toJson) = .ok reloaded ∧
        reloaded.get? .deployed "vault" =
          some (.object [("contract", .string "Vault"), ("address", .string "0xab")]) ∧
        i.address reloaded = .ok (some "0xab") := by
  intro store i
  have hstore : Reachable store := .step .empty (.set .deployed "vault" trivial)
  have hget : store.get? .deployed "vault" = some (.handle ⟨"Vault", some "0xab"⟩) := by
    decide +kernel
  have haddress : i.address store = .ok (some "0xab") := rfl
  obtain ⟨reloaded, hload, _, hread, hlocate⟩ := reload_reachable hstore
  exact ⟨hstore, hget, haddress, reloaded, hload, hread _ _ _ hget, hlocate i _ haddress⟩

end Store

end Playbook
