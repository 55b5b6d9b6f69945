import Playbook.Instruction.Basic
import Playbook.Proofs.Outcome

/-!
# Instructions that are built

A definition that is accepted at a stage has passed the check of every field, and the instruction
holds what the fields describe. An accepted instruction that is ready to run has a locator if it is
called on an instance, and all its destinations are known.
-/

namespace Playbook.Instruction

/-- The fields pass every check of a stage, and the instruction is the one that they describe. -/
structure Describes (stage : Stage) (fields : Fields Value) (i : Instruction) : Prop where
  names : checkNames fields = .ok ()
  description : optionalText fields "description" = .ok i.description
  contract : requiredText fields "contract" = .ok i.contract
  run : requiredText fields "run" = .ok i.run
  locator : optionalText fields "at" = .ok i.locator
  address : checkLocator stage i.contract i.run i.locator = .ok ()
  inputs : inputsOf stage i.contract i.run fields = .ok i.inputs
  outputs : outputsOf stage i.contract i.run fields = .ok i.outputs
  located : checkInstance stage i.contract i.run i.locator = .ok ()
  kind : i.kind = .ofMethod i.run

theorem describes_of_ofFields {stage : Stage} {fields : Fields Value} {i : Instruction}
    (h : ofFields stage fields = .ok i) : Describes stage fields i := by
  obtain ⟨_, names, h⟩ := Outcome.bind_eq_ok.1 h
  obtain ⟨_, description, h⟩ := Outcome.bind_eq_ok.1 h
  obtain ⟨_, contract, h⟩ := Outcome.bind_eq_ok.1 h
  obtain ⟨_, run, h⟩ := Outcome.bind_eq_ok.1 h
  obtain ⟨_, locator, h⟩ := Outcome.bind_eq_ok.1 h
  obtain ⟨_, address, h⟩ := Outcome.bind_eq_ok.1 h
  obtain ⟨_, inputs, h⟩ := Outcome.bind_eq_ok.1 h
  obtain ⟨_, outputs, h⟩ := Outcome.bind_eq_ok.1 h
  obtain ⟨_, located, h⟩ := Outcome.bind_eq_ok.1 h
  obtain rfl := Except.ok.inj h
  exact { names, description, contract, run, locator, address, inputs, outputs, located, kind := rfl }

theorem ofFields_eq_ok {stage : Stage} {fields : Fields Value} {i : Instruction} :
    ofFields stage fields = .ok i ↔ Describes stage fields i := by
  refine ⟨describes_of_ofFields, fun h => ?_⟩
  refine Outcome.bind_eq_ok.2 ⟨_, h.names, ?_⟩
  refine Outcome.bind_eq_ok.2 ⟨_, h.description, ?_⟩
  refine Outcome.bind_eq_ok.2 ⟨_, h.contract, ?_⟩
  refine Outcome.bind_eq_ok.2 ⟨_, h.run, ?_⟩
  refine Outcome.bind_eq_ok.2 ⟨_, h.locator, ?_⟩
  refine Outcome.bind_eq_ok.2 ⟨_, h.address, ?_⟩
  refine Outcome.bind_eq_ok.2 ⟨_, h.inputs, ?_⟩
  refine Outcome.bind_eq_ok.2 ⟨_, h.outputs, ?_⟩
  refine Outcome.bind_eq_ok.2 ⟨_, h.located, ?_⟩
  rw [← h.kind]
  rfl

/-- An instruction is built of a mapping whose fields describe it. -/
theorem build_eq_ok {definition : Value} {i : Instruction} (h : build definition = .ok i) :
    ∃ fields, definition = .object fields ∧ Describes .concrete fields i := by
  cases definition with
  | object fields => exact ⟨fields, rfl, describes_of_ofFields h⟩
  | _ => cases h

/-! ## Fields -/

variable {stage : Stage} {fields : Fields Value} {i : Instruction}

theorem get?_of_requiredText {name text : String} (h : requiredText fields name = .ok text) :
    Fields.get? fields name = some (.string text) := by
  unfold requiredText at h
  split at h
  · split at h
    · cases h
    · simp_all
  · cases h
  · cases h

theorem get?_of_optionalText {name text : String}
    (h : optionalText fields name = .ok (some text)) :
    Fields.get? fields name = some (.string text) := by
  unfold optionalText at h
  split at h
  · cases h
  · cases h
  · obtain ⟨_, hfound, hsome⟩ := Outcome.map_eq_ok.1 h
    exact get?_of_requiredText (Option.some.inj hsome ▸ hfound)

theorem checkLocator_eq_ok {contract run : String} {locator : Option String} :
    checkLocator stage contract run locator = .ok () ↔
      ∀ text, locator = some text → isAddress text = true ∨ Reference.isReference text = true ∨
        stage.defers (.string text) = true := by
  cases locator with
  | none => simp [checkLocator]
  | some text =>
    rw [checkLocator]
    split
    · rename_i hknown
      simpa [or_assoc] using hknown
    · rename_i hknown
      simpa [or_assoc] using hknown

/-- An authored list of inputs is taken as it is. -/
theorem Describes.inputs_eq {inputs : List Value} (h : Describes stage fields i)
    (hi : Fields.get? fields "inputs" = some (.array inputs)) : i.inputs = inputs := by
  have hinputs := h.inputs
  simp only [inputsOf, hi] at hinputs
  exact (Except.ok.inj hinputs).symm

/-- Outside of templates every input is authored. -/
theorem Describes.mem_inputs {v : Value} (h : Describes .concrete fields i) (hv : v ∈ i.inputs) :
    ∃ inputs, Fields.get? fields "inputs" = some (.array inputs) ∧ v ∈ inputs := by
  have hinputs := h.inputs
  rw [inputsOf] at hinputs
  split at hinputs
  · rw [← Except.ok.inj hinputs] at hv
    cases hv
  · rw [← Except.ok.inj hinputs] at hv
    cases hv
  -- Nothing but a list makes inputs outside of templates.
  · rename_i items hg
    rw [← Except.ok.inj hinputs] at hv
    exact ⟨items, hg, hv⟩
  · cases hinputs

/-- Inputs are left out, left for later or a list. -/
theorem exists_inputsOf_iff {contract run : String} :
    (∃ inputs, inputsOf stage contract run fields = .ok inputs) ↔
      ∀ v, Fields.get? fields "inputs" = some v →
        v.shape = .null ∨ stage.defers v = true ∨ v.shape = .array := by
  cases hv : Fields.get? fields "inputs" with
  | none => simp [inputsOf, hv]
  | some v =>
    cases v with
    | null => simp [inputsOf, hv, Value.shape]
    | array items => simp [inputsOf, hv, Value.shape]
    | _ =>
      simp only [inputsOf, hv, Value.shape]
      split <;> simp_all

theorem kind_eq_static_iff (h : i.kind = .ofMethod i.run) :
    i.kind = .static ↔ i.run = "new" ∨ i.run = "link" ∨ i.run = "at" := by
  rw [h, CallKind.ofMethod]
  split
  · rename_i hmem
    simp_all [staticMethods, or_comm, or_left_comm]
  · rename_i hmem
    simp_all [staticMethods]

theorem checkInstance_eq_ok {contract run : String} {locator : Option String} :
    checkInstance stage contract run locator = .ok () ↔
      (CallKind.ofMethod run = .onInstance → locator = none → stage.defers (.string run) = true) := by
  unfold checkInstance
  split <;> simp_all

/-- What is called on an instance has a locator, outside of templates. -/
theorem Describes.exists_locator (h : Describes .concrete fields i) (hk : i.kind = .onInstance) :
    ∃ locator, i.locator = some locator := by
  cases hl : i.locator with
  | some locator => exact ⟨locator, rfl⟩
  | none => cases checkInstance_eq_ok.1 h.located (h.kind ▸ hk) hl

/-- Every destination is left for later or known. -/
theorem checkDestinations_eq_ok {targets : List String} :
    checkDestinations stage targets = .ok () ↔
      ∀ target ∈ targets,
        stage.defers (.string target) = true ∨ ∃ place, destination target = .ok place := by
  induction targets with
  | nil => simp [checkDestinations]
  | cons target rest ih =>
    rw [checkDestinations, List.forall_mem_cons]
    split
    · rename_i hdefers
      -- A destination that is left for later is not looked at.
      rw [ih, and_iff_right (.inl hdefers)]
    · rename_i hdefers
      rw [Outcome.bind_eq_ok, ih, or_iff_right hdefers, exists_and_right]

/-- Outputs are left out, left for later or a specification all of whose destinations are left for
later or known. -/
theorem exists_outputsOf_iff {contract run : String} :
    (∃ outputs, outputsOf stage contract run fields = .ok outputs) ↔
      ∀ v, Fields.get? fields "outputs" = some v →
        v.shape = .null ∨ stage.defers v = true ∨
          ∃ spec, OutputSpec.ofValue v = .ok spec ∧ ∀ target ∈ spec.destinations,
            stage.defers (.string target) = true ∨ ∃ place, destination target = .ok place := by
  simp only [← checkDestinations_eq_ok]
  unfold outputsOf
  split
  · simp_all
  · simp_all [Value.shape]
  · rename_i v hnull hv
    have hshape : v.shape ≠ .null := by
      cases v <;> simp_all [Value.shape]
    simp only [hv, Option.some.injEq, forall_eq', hshape, false_or]
    split
    · simp_all
    -- The outputs are not left for later, so that they have to spell a specification.
    · rename_i hready
      rw [or_iff_right hready]
      cases hspec : OutputSpec.ofValue v with
      | error fault => simp_all
      | ok spec =>
        constructor
        · rintro ⟨_, hchecked⟩
          obtain ⟨_, hchecked, -⟩ := Outcome.map_eq_ok.1 hchecked
          exact ⟨spec, rfl, hchecked⟩
        · rintro ⟨_, ⟨⟩, hchecked⟩
          exact ⟨spec, Outcome.map_eq_ok.2 ⟨_, hchecked, rfl⟩⟩

theorem destination_of_checkDestinations {targets : List String}
    (h : checkDestinations .concrete targets = .ok ()) :
    ∀ target ∈ targets, ∃ place, destination target = .ok place := fun target hmem =>
  (checkDestinations_eq_ok.1 h target hmem).resolve_left nofun

/-- Outside of templates every destination is known. -/
theorem Describes.exists_destination (h : Describes .concrete fields i) :
    ∀ target ∈ i.outputs.destinations, ∃ place, destination target = .ok place := by
  have houtputs := h.outputs
  have hempty : OutputSpec.empty = i.outputs →
      ∀ target ∈ i.outputs.destinations, ∃ place, destination target = .ok place := by
    intro he target hmem
    rw [← he, OutputSpec.empty, OutputSpec.destinations] at hmem
    cases hmem
  unfold outputsOf at houtputs
  split at houtputs
  · exact hempty (Except.ok.inj houtputs)
  · exact hempty (Except.ok.inj houtputs)
  · split at houtputs
    · exact hempty (Except.ok.inj houtputs)
    split at houtputs
    · cases houtputs
    · rename_i spec _
      obtain ⟨_, hchecked, rfl⟩ := Outcome.map_eq_ok.1 houtputs
      exact destination_of_checkDestinations hchecked

end Playbook.Instruction
