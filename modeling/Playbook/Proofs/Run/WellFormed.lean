import Playbook.Call.DryRun
import Playbook.Proofs.Instruction.Expansion
import Playbook.Proofs.Output.Writes
import Playbook.Proofs.Run.Invariant
import Playbook.Proofs.Run.Step

/-!
# Runs on well-formed values

Where the authored values and the state are well-formed, the calls of a run are, and so are the
answers to them if the invoker answers such calls with well-formed values. A run then changes the
state by writes of well-formed values only.
-/

namespace Playbook

open Value

/-! ## Authored values -/

namespace Item

mutual

theorem wellFormed_substitute {item : Value} (hi : item.WellFormed) :
    ∀ template : Value, template.WellFormed → (substitute item template).WellFormed
  | .string text, _ => by
    rw [substitute]
    cases hr : resolve? (.string text) item with
    | none => trivial
    | some v =>
      -- A reference is replaced by a part of the item.
      obtain ⟨path, _, hv⟩ := Option.bind_eq_some_iff.1 hr
      exact wellFormed_lookup hi hv
  | .array items, h => by
    rw [substitute]
    exact wellFormed_substituteItems hi items h
  | .object fields, h => by
    rw [substitute]
    refine ⟨?_, wellFormed_substituteFields hi fields h.2⟩
    rw [Fields.Distinct, names_substituteFields]
    exact h.1
  | .null, h | .bool _, h | .number _, h | .bigInt _, h | .date _, h | .bytes _, h
  | .handle _, h => by
    rw [substitute]
    · exact h
    all_goals simp

theorem wellFormed_substituteItems {item : Value} (hi : item.WellFormed) :
    ∀ items : List Value, ItemsWellFormed items → ItemsWellFormed (substituteItems item items)
  | [], _ => trivial
  | v :: rest, h =>
    ⟨wellFormed_substitute hi v h.1, wellFormed_substituteItems hi rest h.2⟩

theorem wellFormed_substituteFields {item : Value} (hi : item.WellFormed) :
    ∀ fields : List (String × Value), FieldsWellFormed fields →
      FieldsWellFormed (substituteFields item fields)
  | [], _ => trivial
  | (_, v) :: rest, h =>
    ⟨wellFormed_substitute hi v h.1, wellFormed_substituteFields hi rest h.2⟩

end

end Item

namespace Instruction

/-- The inputs of the instruction are well-formed. -/
def WellFormed (i : Instruction) : Prop :=
  ∀ v ∈ i.inputs, v.WellFormed

theorem wellFormed_build {definition : Value} {i : Instruction} (hd : definition.WellFormed)
    (h : build definition = .ok i) : i.WellFormed := by
  obtain ⟨fields, rfl, hdescribes⟩ := build_eq_ok h
  intro v hv
  obtain ⟨inputs, hg, hmem⟩ := hdescribes.mem_inputs hv
  exact itemsWellFormed_iff.1 (hd.2.get? hg) v hmem

end Instruction

namespace Loop

/-- The authored items and the templates of the loop are well-formed. -/
def WellFormed (l : Loop) : Prop :=
  (∀ list, l.source = .items list → ∀ item ∈ list, item.WellFormed) ∧
    ∀ template ∈ l.templates, template.WellFormed

end Loop

/-! ## Against the state -/

theorem Store.WellFormed.get? {store : Store} {space : Namespace} {path : String} {v : Value}
    (h : store.WellFormed) (hv : store.get? space path = some v) : v.WellFormed := by
  obtain ⟨root, hr, hl⟩ := Option.bind_eq_some_iff.1 hv
  exact wellFormed_lookup (h space root hr).2 hl

theorem wellFormed_resolve? {store : Store} {v found : Value} (hs : store.WellFormed)
    (hv : v.WellFormed) (h : v.resolve? store = some found) : found.WellFormed := by
  cases v with
  | string text =>
    rw [resolve?] at h
    split at h
    · exact hs.get? h
    · exact Option.some.inj h ▸ hv
  | _ => exact Option.some.inj h ▸ hv

namespace Instruction

theorem names_resolvedFields (store : Store) (fields : Fields Value) :
    (Fields.names (resolvedFields store fields)).Sublist (Fields.names fields) := by
  induction fields with
  | nil => exact List.Sublist.slnil
  | cons entry rest ih =>
    obtain ⟨name, v⟩ := entry
    cases hv : v.resolve? store with
    | none => simpa [resolvedFields, Fields.names, hv] using ih.cons name
    | some found => simpa [resolvedFields, Fields.names, hv] using ih

theorem wellFormed_resolvedFields {store : Store} {fields : Fields Value} (hs : store.WellFormed)
    (h : FieldsWellFormed fields) : FieldsWellFormed (resolvedFields store fields) := by
  induction fields with
  | nil => trivial
  | cons entry rest ih =>
    obtain ⟨name, v⟩ := entry
    cases hv : v.resolve? store with
    | none => simpa [resolvedFields, hv] using ih h.2
    | some found =>
      have hfound : FieldsWellFormed ((name, found) :: resolvedFields store rest) :=
        ⟨wellFormed_resolve? hs h.1 hv, ih h.2⟩
      simpa [resolvedFields, hv] using hfound

theorem wellFormed_resolvedInput {store : Store} {v : Value} (hs : store.WellFormed)
    (hv : v.WellFormed) : (resolvedInput store v).WellFormed := by
  cases v with
  | object fields =>
    rw [resolvedInput]
    exact ⟨hv.1.sublist (names_resolvedFields store fields), wellFormed_resolvedFields hs hv.2⟩
  | string text =>
    rw [resolvedInput]
    · cases hr : (Value.string text).resolve? store with
      | none => trivial
      | some found => exact wellFormed_resolve? hs hv hr
    · simp
  | _ => exact hv

theorem wellFormed_resolvedInputs {i : Instruction} {store : Store} (hs : store.WellFormed)
    (hi : i.WellFormed) : ∀ v ∈ i.resolvedInputs store, v.WellFormed := by
  intro v hv
  obtain ⟨input, hinput, rfl⟩ := List.mem_map.1 hv
  exact wellFormed_resolvedInput hs (hi input hinput)

end Instruction

namespace Loop

theorem wellFormed_items {l : Loop} {store : Store} {list : List Value} (hs : store.WellFormed)
    (hl : l.WellFormed) (h : l.items store = .ok list) : ∀ item ∈ list, item.WellFormed := by
  rw [items] at h
  split at h
  · rename_i authored hsource
    obtain rfl := Except.ok.inj h
    exact hl.1 authored hsource
  · rename_i text _
    split at h
    · rename_i found hr
      obtain rfl := Except.ok.inj h
      -- The items are a list that the state holds.
      have hfound := wellFormed_resolve? hs (show (Value.string text).WellFormed from trivial) hr
      exact itemsWellFormed_iff.1 hfound
    · cases h
    · cases h

theorem wellFormed_expand {l : Loop} {store : Store} {instructions : List Instruction}
    (hs : store.WellFormed) (hl : l.WellFormed) (h : l.expand store = .ok instructions) :
    ∀ i ∈ instructions, i.WellFormed := by
  intro i hi
  obtain ⟨list, hlist, item, hitem, template, htemplate, hb⟩ := mem_of_expand h hi
  have hitem := wellFormed_items hs hl hlist item hitem
  exact Instruction.wellFormed_build
    (Item.wellFormed_substitute hitem template (hl.2 template htemplate)) hb

end Loop

/-! ## Calls -/

/-- Conversions of well-formed values give well-formed values. -/
def Coercer.WellFormed (coercer : Coercer) : Prop :=
  ∀ declared v w, v.WellFormed → coercer.coerce declared v = .ok w → w.WellFormed

namespace Binder

variable {coercer : Coercer}

theorem wellFormed_bindParameter {signature : Signature} {fields : Fields Value}
    {parameter : Parameter} {v : Value} (hc : coercer.WellFormed) (hf : FieldsWellFormed fields)
    (h : bindParameter coercer signature fields parameter = .ok v) : v.WellFormed := by
  rw [bindParameter] at h
  split at h
  · rename_i found hfirst
    obtain ⟨name, _, hg⟩ := List.exists_of_findSome?_eq_some hfirst
    exact hc _ _ _ (hf.get? hg) h
  · cases h

theorem wellFormed_bindParameters {signature : Signature} {fields : Fields Value}
    (hc : coercer.WellFormed) (hf : FieldsWellFormed fields) {parameters : List Parameter}
    {arguments : List Value}
    (h : bindParameters coercer signature fields parameters = .ok arguments) :
    ∀ v ∈ arguments, v.WellFormed := by
  induction parameters generalizing arguments with
  | nil =>
    obtain rfl := Except.ok.inj h
    simp
  | cons parameter rest ih =>
    obtain ⟨v, hv, h⟩ := Outcome.bind_eq_ok.1 h
    obtain ⟨vs, hvs, rfl⟩ := Outcome.map_eq_ok.1 h
    exact List.forall_mem_cons.2 ⟨wellFormed_bindParameter hc hf hv, ih hvs⟩

theorem wellFormed_piece {signature : Option Signature} {isOptions : Bool} {input : Value}
    {arguments : List Value} (hc : coercer.WellFormed) (hi : input.WellFormed)
    (h : piece coercer signature isOptions input = .ok arguments) :
    ∀ v ∈ arguments, v.WellFormed := by
  have hsame : Except.ok (ε := Error) [input] = .ok arguments → ∀ v ∈ arguments, v.WellFormed := by
    intro he
    obtain rfl := Except.ok.inj he
    simpa using hi
  unfold piece at h
  split at h
  · cases isOptions with
    | true => exact hsame h
    | false => exact wellFormed_bindParameters hc hi.2 h
  · exact hsame h

theorem wellFormed_sortFrom {signature : Option Signature} {parameterCount inputCount : Nat}
    (hc : coercer.WellFormed) {inputs arguments : List Value} {index produced : Nat}
    (hi : ∀ v ∈ inputs, v.WellFormed)
    (h : sortFrom coercer signature parameterCount inputCount index produced inputs =
      .ok arguments) :
    ∀ v ∈ arguments, v.WellFormed := by
  induction inputs generalizing index produced arguments with
  | nil =>
    obtain rfl := Except.ok.inj h
    simp
  | cons input rest ih =>
    obtain ⟨hinput, hrest⟩ := List.forall_mem_cons.1 hi
    obtain ⟨vs, hvs, h⟩ := Outcome.bind_eq_ok.1 h
    obtain ⟨ws, hws, rfl⟩ := Outcome.map_eq_ok.1 h
    exact List.forall_mem_append.2 ⟨wellFormed_piece hc hinput hvs, ih hrest hws⟩

theorem wellFormed_sort {signature : Option Signature} {inputs arguments : List Value}
    (hc : coercer.WellFormed) (hi : ∀ v ∈ inputs, v.WellFormed)
    (h : sort coercer signature inputs = .ok arguments) : ∀ v ∈ arguments, v.WellFormed :=
  wellFormed_sortFrom hc hi h

end Binder

namespace Runner

variable {σ : Type}

/-- Conversions of well-formed values are well-formed, and so is any answer to a call whose
arguments are. -/
structure WellFormed (r : Runner σ) : Prop where
  coercer : r.coercer.WellFormed
  answers : ∀ call chain answer chain', (∀ v ∈ call.arguments, v.WellFormed) →
    r.invoker call chain = (.ok answer, chain') → answer.WellFormed

theorem callOf_eq_ok {r : Runner σ} {i : Instruction} {store : Store} {call : Call}
    (h : r.callOf i store = .ok call) :
    ∃ address signature arguments,
      instanceOf i store = .ok address ∧ signatureOf r.artifacts i = .ok signature ∧
      Binder.sort r.coercer signature (i.resolvedInputs store) = .ok arguments ∧
      call = ⟨i.contract, address, i.run, arguments, i.kind⟩ := by
  obtain ⟨address, ha, h⟩ := Outcome.bind_eq_ok.1 h
  obtain ⟨signature, hs, h⟩ := Outcome.bind_eq_ok.1 h
  obtain ⟨arguments, hb, h⟩ := Outcome.bind_eq_ok.1 h
  exact ⟨address, signature, arguments, ha, hs, hb, (Except.ok.inj h).symm⟩

theorem wellFormed_callOf {r : Runner σ} {i : Instruction} {store : Store} {call : Call}
    (hr : r.WellFormed) (hs : store.WellFormed) (hi : i.WellFormed)
    (h : r.callOf i store = .ok call) : ∀ v ∈ call.arguments, v.WellFormed := by
  obtain ⟨address, signature, arguments, _, _, hb, rfl⟩ := callOf_eq_ok h
  exact Binder.wellFormed_sort hr.coercer (Instruction.wellFormed_resolvedInputs hs hi) hb

/-! ## A run writes -/

theorem writes_register (contract : String) (store : Store) :
    Store.Writes store (register contract store).2 := by
  rw [register]
  split
  · exact .refl
  · exact .set .refl .contracts contract trivial

/-- Once its contract is registered, an instruction only writes. -/
theorem Ends.writes_registered {r : Runner σ} {i : Instruction} {w w' : World σ}
    {outcome : Except Error Value} (h : Ends r i w outcome w') (hr : r.WellFormed)
    (hi : i.WellFormed) (hs : w.store.WellFormed) :
    Store.Writes (register i.contract w.store).2 w'.store := by
  have hregistered := (writes_register i.contract w.store).wellFormed hs
  cases h with
  | unregistered hregister =>
    rw [hregister]
    exact .refl
  | unready hregister _ =>
    rw [hregister]
    exact .refl
  | refused hregister _ _ =>
    rw [hregister]
    exact .refl
  | @answered _ result _ store _ _ hregister hcall hanswer hstore =>
    rw [hregister] at hregistered ⊢
    -- The answer is well-formed as the arguments are, and what it is stored as is written.
    have harguments := wellFormed_callOf hr hregistered hi hcall
    have hresult := hr.answers _ _ _ _ harguments hanswer
    have hstored := OutputSpec.writes_store i.outputs store hresult
    rw [hstore] at hstored
    exact hstored

theorem writes_execute {r : Runner σ} {i : Instruction} {w : World σ} (hr : r.WellFormed)
    (hi : i.WellFormed) (hs : w.store.WellFormed) :
    Store.Writes w.store (r.execute i w).2.store := by
  rw [execute_world]
  exact (writes_register i.contract w.store).trans
    ((perform_ends r i w).writes_registered hr hi hs)

/-- A run changes the state by writes of well-formed values. -/
theorem writes_run {r : Runner σ} {entries : List Entry} {w : World σ} (hr : r.WellFormed)
    (he : Entry.AllOf Instruction.WellFormed Loop.WellFormed entries) (hs : w.store.WellFormed) :
    Store.Writes w.store (r.run entries w).2.store := by
  have hinvariant : r.Invariant (fun w' => Store.Writes w.store w'.store) Instruction.WellFormed
      Loop.WellFormed := {
    executes := fun i hi w' hw' => hw'.trans (writes_execute hr hi (hw'.wellFormed hs))
    expands := fun l w' instructions hl hw' hexpand =>
      Loop.wellFormed_expand (hw'.wellFormed hs) hl hexpand }
  exact preserves_run hinvariant he w .refl

end Runner

/-! ## Dry runs -/

/-- A conversion of a family by default makes a scalar, or changes nothing. -/
theorem wellFormed_defaults {family : Family} {shape : Shape} {conversion : Conversion} {v w : Value}
    (hc : family.defaults shape = some conversion) (hv : v.WellFormed)
    (h : conversion v = .ok w) : w.WellFormed := by
  -- The default tables hold five conversions, whatever the family and the shape are.
  have hmem : conversion ∈ [Conversion.boolOfString, Conversion.integerOfBigInt,
      Conversion.integerOfDate, Conversion.integerOfString, Conversion.bytesOfString] := by
    cases family <;> cases shape <;>
      simp_all [Family.defaults, ConversionTable.set, ConversionTable.none]
  simp only [List.mem_cons, List.not_mem_nil, or_false] at hmem
  rcases hmem with rfl | rfl | rfl | rfl | rfl
  · unfold Conversion.boolOfString at h
    split at h <;> obtain rfl := Except.ok.inj h
    · trivial
    · exact hv
  · unfold Conversion.integerOfBigInt at h
    split at h <;> obtain rfl := Except.ok.inj h
    · trivial
    · exact hv
  · unfold Conversion.integerOfDate at h
    split at h <;> obtain rfl := Except.ok.inj h
    · trivial
    · exact hv
  · unfold Conversion.integerOfString at h
    split at h
    · split at h
      · obtain rfl := Except.ok.inj h
        trivial
      · cases h
    · obtain rfl := Except.ok.inj h
      exact hv
  · unfold Conversion.bytesOfString at h
    split at h <;> obtain rfl := Except.ok.inj h
    · trivial
    · exact hv

theorem Coercer.wellFormed_default : Coercer.default.WellFormed := by
  intro declared v w hv h
  rw [coerce] at h
  split at h
  · cases h
  · rename_i type _
    split at h
    · exact Except.ok.inj h ▸ hv
    · rename_i conversion hc
      exact wellFormed_defaults hc hv (Outcome.mapError_eq_ok.1 h)

namespace DryRun

theorem wellFormed_answer {call : Call} (count : Nat) (h : ∀ v ∈ call.arguments, v.WellFormed) :
    (answer call count).WellFormed := by
  rw [answer]
  split
  · exact ⟨by simp [Fields.Distinct, Fields.names], trivial, trivial, trivial⟩
  split
  · trivial
  split
  · trivial
  · have harguments : (Value.array call.arguments).WellFormed := itemsWellFormed_iff.2 h
    rw [echo]
    cases call.address with
    | none =>
      exact ⟨by simp [Fields.Distinct, Fields.names], trivial, trivial, harguments, trivial, trivial⟩
    | some address =>
      exact ⟨by simp [Fields.Distinct, Fields.names], trivial, trivial, trivial, harguments, trivial,
        trivial⟩

/-- A dry run with the conversions by default. -/
theorem wellFormed_runner (artifacts : ArtifactSource) :
    (⟨invoker, artifacts, .default⟩ : Runner Nat).WellFormed where
  coercer := Coercer.wellFormed_default
  answers := by
    intro call chain v chain' harguments h
    obtain ⟨hv, _⟩ := Prod.mk.inj h
    exact Except.ok.inj hv ▸ wellFormed_answer _ harguments

end DryRun

end Playbook
