import Playbook.Value.Merge

/-!
# Well-formed values

The names of an object are distinct, in the object itself and at every depth below it. Merging such
fields into fields that share no name with them appends them. A merge of well-formed values is
well-formed, and keeps the names of an object that an object is merged into.
-/

namespace Playbook.Value

mutual

/-- No object in the value has a name twice. -/
def WellFormed : Value → Prop
  | .array items => ItemsWellFormed items
  | .object fields => Fields.Distinct fields ∧ FieldsWellFormed fields
  | _ => True

def ItemsWellFormed : List Value → Prop
  | [] => True
  | item :: rest => WellFormed item ∧ ItemsWellFormed rest

def FieldsWellFormed : List (String × Value) → Prop
  | [] => True
  | (_, v) :: rest => WellFormed v ∧ FieldsWellFormed rest

end

theorem WellFormed.distinct {fields : Fields Value} (h : (object fields).WellFormed) :
    fields.Distinct :=
  h.1

theorem mergeFields_of_disjoint {existing incoming : Fields Value}
    (hd : incoming.Distinct) (hn : ∀ name ∈ incoming.names, name ∉ existing.names) :
    mergeFields existing incoming = existing ++ incoming := by
  induction incoming generalizing existing with
  | nil => simp [mergeFields]
  | cons entry rest ih =>
    obtain ⟨name, v⟩ := entry
    have hnew : name ∉ existing.names := hn name (by simp [Fields.names])
    have hput : Fields.put existing name v = existing ++ [(name, v)] :=
      Fields.put_of_not_mem v hnew
    have hrest : name ∉ Fields.names rest ∧ Fields.Distinct rest := by
      simpa [Fields.Distinct, Fields.names] using hd
    have hget : Fields.get? existing name = none := by
      simpa [Fields.mem_names_iff_get?] using hnew
    rw [mergeFields, hget, hput, ih hrest.2]
    · simp
    -- The name that was put first is not among those that are left.
    · intro other hother
      have hne : other ≠ name := fun e => hrest.1 (e ▸ hother)
      have hold : other ∉ existing.names := hn other (by
        simp only [Fields.names, List.map_cons, List.mem_cons]
        exact .inr hother)
      simpa [Fields.names, hne] using hold

theorem mergeFields_nil {incoming : Fields Value} (hd : incoming.Distinct) :
    mergeFields [] incoming = incoming := by
  have h : mergeFields [] incoming = [] ++ incoming :=
    mergeFields_of_disjoint hd (by simp [Fields.names])
  exact h

/-! ## Parts of well-formed values -/

theorem itemsWellFormed_iff {items : List Value} :
    ItemsWellFormed items ↔ ∀ v ∈ items, v.WellFormed := by
  induction items with
  | nil => simp [ItemsWellFormed]
  | cons item rest ih => simp [ItemsWellFormed, ih]

theorem FieldsWellFormed.get? {fields : Fields Value} {name : String} {v : Value}
    (h : FieldsWellFormed fields) (hv : Fields.get? fields name = some v) : v.WellFormed := by
  induction fields with
  | nil => cases hv
  | cons entry rest ih =>
    obtain ⟨key, w⟩ := entry
    rw [Fields.get?] at hv
    split at hv
    · exact Option.some.inj hv ▸ h.1
    · exact ih h.2 hv

theorem wellFormed_put {fields : Fields Value} {v : Value} (name : String)
    (h : (object fields).WellFormed) (hv : v.WellFormed) :
    (object (Fields.put fields name v)).WellFormed := by
  refine ⟨Fields.distinct_put name v h.1, ?_⟩
  have hfields := h.2
  clear h
  induction fields with
  | nil => exact ⟨hv, trivial⟩
  | cons entry rest ih =>
    obtain ⟨key, w⟩ := entry
    rw [Fields.put]
    split
    · exact ⟨hv, hfields.2⟩
    · exact ⟨hfields.1, ih hfields.2⟩

theorem wellFormed_nil : (object []).WellFormed := ⟨List.nodup_nil, trivial⟩

theorem wellFormed_opened {v : Value} (h : v.WellFormed) : v.opened.WellFormed := by
  cases v with
  | handle handle =>
    obtain ⟨contract, address⟩ := handle
    cases address with
    | none => exact ⟨by simp [Fields.Distinct, Fields.names, ContractHandle.fields], trivial, trivial⟩
    | some address =>
      exact ⟨by simp [Fields.Distinct, Fields.names, ContractHandle.fields], trivial, trivial,
        trivial⟩
  | _ => exact h

/-! ## Merges -/

mutual

theorem wellFormed_merge : ∀ {existing incoming : Value}, existing.WellFormed →
    incoming.WellFormed → (merge existing incoming).WellFormed
  | existing, .object incoming, he, hi => by
    have ho := wellFormed_opened he
    rw [merge]
    split
    · rename_i fields hf
      rw [hf] at ho
      exact wellFormed_mergeFields ho hi.2
    · exact hi
  | _, .null, _, hi | _, .bool _, _, hi | _, .number _, _, hi | _, .bigInt _, _, hi
  | _, .date _, _, hi | _, .string _, _, hi | _, .bytes _, _, hi | _, .array _, _, hi
  | _, .handle _, _, hi => by
    rw [merge_of_not_isObject _ rfl]
    exact hi

theorem wellFormed_mergeFields : ∀ {existing : Fields Value} {incoming : List (String × Value)},
    (object existing).WellFormed → FieldsWellFormed incoming →
      (object (mergeFields existing incoming)).WellFormed
  | _, [], he, _ => by
    rw [mergeFields]
    exact he
  | existing, (name, v) :: rest, he, hi => by
    rw [mergeFields]
    apply wellFormed_mergeFields _ hi.2
    apply wellFormed_put name he
    split
    · rename_i old hold
      exact wellFormed_merge (he.2.get? hold) hi.1
    · exact hi.1

end

/-- The names of an object in their order; no other value has names. -/
def keys : Value → List String
  | .object fields => Fields.names fields
  | _ => []

theorem names_prefix_mergeFields (existing incoming : Fields Value) :
    existing.names <+: Fields.names (mergeFields existing incoming) := by
  induction incoming generalizing existing with
  | nil => simp [mergeFields]
  | cons entry rest ih =>
    obtain ⟨name, v⟩ := entry
    rw [mergeFields]
    exact (Fields.names_prefix_names_put existing name _).trans (ih _)

/-- An object merged into a value appends to its names. -/
theorem keys_prefix_merge (existing : Value) {incoming : Value} (h : incoming.isObject = true) :
    existing.keys <+: (existing.merge incoming).keys := by
  cases incoming with
  | object incoming =>
    cases existing with
    | object fields =>
      rw [merge_object]
      exact names_prefix_mergeFields fields incoming
    | _ => exact List.nil_prefix
  | _ => cases h

theorem isObject_merge (existing : Value) {incoming : Value} (h : incoming.isObject = true) :
    (existing.merge incoming).isObject = true := by
  cases incoming with
  | object incoming =>
    rw [merge]
    split <;> rfl
  | _ => cases h

end Playbook.Value
