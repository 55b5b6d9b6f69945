import Playbook.Call.Basic
import Playbook.Proofs.Path.Hop
import Playbook.Proofs.Value.Excerpt
import Playbook.Proofs.Value.Plain

/-!
# Reading below handles

A path does not lead into a handle, while everything else that reads one finds its contract and its
address. Here each read is compared with the same read in the exposed value, in which all handles
are objects. The main statement: the two differ at the fields of handles, and nowhere else.
-/

namespace Playbook

namespace Value

mutual

/-- The value with every handle in it, at any depth, as the object of its fields. -/
def exposed : Value → Value
  | .handle h => .object h.fields
  | .array items => .array (exposedItems items)
  | .object fields => .object (exposedFields fields)
  | v => v

def exposedItems : List Value → List Value
  | [] => []
  | item :: rest => item.exposed :: exposedItems rest

def exposedFields : List (String × Value) → Fields Value
  | [] => []
  | (name, v) :: rest => (name, v.exposed) :: exposedFields rest

end

/-- The path ends at a field of a handle that the value holds. -/
def EndsInHandle (v : Value) (path : Path) : Prop :=
  ∃ front key h, path = front ++ [.key key] ∧ v.lookup front = some (.handle h) ∧
    Fields.has h.fields key = true

theorem exposedItems_eq (items : List Value) : exposedItems items = items.map exposed := by
  induction items with
  | nil => rfl
  | cons item rest ih => rw [exposedItems, ih, List.map_cons]

theorem exposedFields_eq (fields : Fields Value) :
    exposedFields fields = fields.map fun (name, v) => (name, v.exposed) := by
  induction fields with
  | nil => rfl
  | cons entry rest ih => rw [exposedFields, ih, List.map_cons]

/-! ## One hop -/

/-- Only a hop from a handle leads elsewhere in the exposed value. -/
theorem child?_exposed {v : Value} (segment : Segment) (hv : v.shape ≠ .handle) :
    v.exposed.child? segment = (v.child? segment).map exposed := by
  cases v with
  | object fields =>
    rw [exposed, exposedFields_eq]
    cases segment with
    | key key => exact Fields.get?_map exposed fields key
    | index index => rfl
  | array items =>
    rw [exposed, exposedItems_eq]
    cases segment with
    | key key =>
      cases hk : itemKey? key with
      | none => simp [child?, hk]
      | some index => simp [child?, hk]
    | index index => simp [child?]
  | handle h => exact absurd rfl hv
  | _ => cases segment <;> rfl

/-! ## Whole paths -/

/-- What is read at a path is read there in the exposed value, exposed itself. -/
theorem lookup_exposed {v w : Value} {path : Path} (h : v.lookup path = some w) :
    v.exposed.lookup path = some w.exposed := by
  induction path generalizing v with
  | nil => exact congrArg (fun v => some v.exposed) (Option.some.inj h)
  | cons segment rest ih =>
    obtain ⟨child, hc, hw⟩ := Option.bind_eq_some_iff.1 h
    have hv : v.shape ≠ .handle := by
      rcases shape_of_child? hc with hshape | hshape <;> simp [hshape]
    rw [lookup, child?_exposed segment hv, hc]
    exact ih hw

theorem EndsInHandle.cons {v child : Value} {segment : Segment} {path : Path}
    (hc : v.child? segment = some child) (h : child.EndsInHandle path) :
    v.EndsInHandle (segment :: path) := by
  obtain ⟨front, key, handle, rfl, hfront, hkey⟩ := h
  exact ⟨segment :: front, key, handle, rfl, by rw [lookup, hc]; exact hfront, hkey⟩

/-- A path of an exposed handle that leads past the handle ends at one of its fields. -/
theorem endsInHandle_handle {h : ContractHandle} {segment : Segment} {rest : Path} {w : Value}
    (hw : (handle h).exposed.lookup (segment :: rest) = some w) :
    (handle h).EndsInHandle (segment :: rest) := by
  obtain ⟨child, hc, hw⟩ := Option.bind_eq_some_iff.1 hw
  cases segment with
  | index index => cases hc
  | key key =>
    have hfield : Fields.get? h.fields key = some child := hc
    -- The fields of a handle are texts, which nothing leads into.
    obtain ⟨text, rfl⟩ := exists_text_of_field hfield
    cases rest with
    | nil => exact ⟨[], key, h, rfl, rfl, by simp [Fields.has, hfield]⟩
    | cons segment rest => cases segment <;> cases hw

/-- What is read in the exposed value alone is a field of a handle. -/
theorem endsInHandle_of_lookup {v w : Value} {path : Path} (hn : v.lookup path = none)
    (hw : v.exposed.lookup path = some w) : v.EndsInHandle path := by
  induction path generalizing v with
  | nil => cases hn
  | cons segment rest ih =>
    -- The first handle on the way is where the two reads part.
    by_cases hv : v.shape = .handle
    · cases v <;> cases hv
      exact endsInHandle_handle hw
    · rw [lookup, child?_exposed segment hv] at hw
      rw [lookup] at hn
      cases hc : v.child? segment with
      | none => simp [hc] at hw
      | some child =>
        rw [hc] at hn hw
        exact (ih hn hw).cons hc

/-- At a field of a handle, a text is read in the exposed value alone. -/
theorem EndsInHandle.lookup_eq {v : Value} {path : Path} (h : v.EndsInHandle path) :
    v.lookup path = none ∧ ∃ text, v.exposed.lookup path = some (.string text) := by
  obtain ⟨front, key, handle, rfl, hfront, hkey⟩ := h
  rw [lookup_append, lookup_append, hfront, lookup_exposed hfront]
  obtain ⟨w, hw⟩ := Option.isSome_iff_exists.1 hkey
  obtain ⟨text, rfl⟩ := exists_text_of_field hw
  exact ⟨rfl, text, by simp [exposed, lookup, child?, hw]⟩

theorem map_exposed_lookup_iff (v : Value) (path : Path) :
    (v.lookup path).map exposed = v.exposed.lookup path ↔ ¬ v.EndsInHandle path := by
  constructor
  · intro heq hends
    obtain ⟨hnone, text, htext⟩ := hends.lookup_eq
    rw [hnone, htext] at heq
    cases heq
  · intro hends
    cases hread : v.lookup path with
    | some w => exact (lookup_exposed hread).symm
    | none =>
      cases hw : v.exposed.lookup path with
      | none => rfl
      | some w => exact absurd (endsInHandle_of_lookup hread hw) hends

/-! ## The address of a handle -/

/-- A mapping takes nothing from a handle, not even its address. -/
theorem store_address_of_handle (h : ContractHandle) (targets : Targets) (store : Store) :
    (OutputSpec.mapping [("address", targets)]).store (.handle h) store = (.ok (), store) := by
  have hpath : Path.parse "address" = [.key "address"] := by decide +kernel
  have hselect : (handle h).select "address" = none := by rw [select, hpath]; rfl
  simp [OutputSpec.store, OutputSpec.storeSource, Store.Action.each, hselect]

theorem lookup_address_fields (h : ContractHandle) :
    (object h.fields).lookup [.key "address"] = h.address.map string := by
  simp [lookup, child?, h.get?_fields_address]

/-- What is read at a path is what is read there in the exposed value, exactly when the path does
not end at a field of a handle. The address of a handle, which no path finds, is found in the
exposed value and in the export at its path, where the handle is opened, by a locator that leads to
the handle, and in the record of a call that answers with it; but no mapping takes it from such an
answer. -/
theorem reads_exposed_iff (v : Value) :
    (∀ path, (v.lookup path).map exposed = v.exposed.lookup path ↔ ¬ v.EndsInHandle path) ∧
    ∀ front h, v.lookup front = some (.handle h) →
      v.lookup (front ++ [.key "address"]) = none ∧
      v.exposed.lookup (front ++ [.key "address"]) = h.address.map .string ∧
      v.plain.lookup (front ++ [.key "address"]) = h.address.map .string ∧
      (handle h).opened.lookup [.key "address"] = h.address.map .string ∧
      Instruction.addressOf? (.handle h) = h.address ∧
      (CallRecord.ofResult (.handle h)).address = h.address ∧
      ∀ targets store,
        (OutputSpec.mapping [("address", targets)]).store (.handle h) store = (.ok (), store) := by
  refine ⟨map_exposed_lookup_iff v, fun front h hfront => ⟨?_, ?_, ?_, ?_, rfl, rfl, ?_⟩⟩
  · rw [lookup_append, hfront]
    rfl
  · rw [lookup_append, lookup_exposed hfront]
    exact lookup_address_fields h
  · rw [lookup_append, lookup_plain hfront, plain_handle]
    exact lookup_address_fields h
  · exact lookup_address_fields h
  · exact store_address_of_handle h

/-- A handle that is not bound has no address for any reader; the address of one that is bound is
read in the export. -/
theorem reads_exposed_iff_vault :
    let v : Value := .object
      [("vault", .handle ⟨"Vault", some "0xab"⟩), ("all", .array [.handle ⟨"Token", none⟩])]
    let unbound : Path := [.key "all", .index 0, .key "address"]
    ¬ v.EndsInHandle unbound ∧ (v.lookup unbound).map exposed = v.exposed.lookup unbound ∧
      v.lookup [.key "vault"] = some (.handle ⟨"Vault", some "0xab"⟩) ∧
      v.lookup [.key "vault", .key "address"] = none ∧
      v.plain.lookup [.key "vault", .key "address"] = some (.string "0xab") := by
  intro v unbound
  have hends : ¬ v.EndsInHandle unbound := by
    intro h
    obtain ⟨_, text, htext⟩ := h.lookup_eq
    cases htext
  have hvault : v.lookup [.key "vault"] = some (.handle ⟨"Vault", some "0xab"⟩) := rfl
  obtain ⟨hnone, _, hplain, _⟩ := (reads_exposed_iff v).2 [.key "vault"] _ hvault
  exact ⟨hends, ((reads_exposed_iff v).1 unbound).2 hends, hvault, hnone, hplain⟩

/-- The address of a bound handle is not read at its path, and a mapping that takes it from the
answer of a call stores nothing; from the same handle as an object, it stores the address. -/
theorem handle_address_unread :
    let h : ContractHandle := ⟨"Vault", some "0xab"⟩
    let v : Value := .object [("vault", .handle h)]
    let spec : OutputSpec := .mapping [("address", .one "$deployed.vault")]
    v.select "vault.address" = none ∧ v.exposed.select "vault.address" = some (.string "0xab") ∧
      spec.store (.handle h) .empty = (.ok (), .empty) ∧
      (spec.store (handle h).exposed .empty).2.get? .deployed "vault" = some (.string "0xab") ∧
      (CallRecord.ofResult (.handle h)).address = some "0xab" := by
  intro h v spec
  refine ⟨by decide +kernel, by decide +kernel, ?_, by decide +kernel, rfl⟩
  exact store_address_of_handle h (.one "$deployed.vault") .empty

end Value

end Playbook
