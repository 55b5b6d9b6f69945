import Playbook.Proofs.Instruction.Reference
import Playbook.Proofs.Instruction.Substitution

/-!
# Templates that are accepted

A template is checked like an instruction, except that a field, a destination or a method which is
an item reference is left for later. The main statement: no template is refused that some item turns
into an instruction, and without item references a template is an instruction already, unless its
outputs hide one in a handle.
-/

namespace Playbook.Instruction

open Item

variable {item : Value} {fields : Fields Value} {contract contract' run run' : String}

theorem defers_template (text : String) :
    Stage.template.defers (.string text) = (path? text).isSome := rfl

/-! ## Texts -/

theorem requiredText_eq_ok {name text : String} :
    requiredText fields name = .ok text ↔
      Fields.get? fields name = some (.string text) ∧ Text.isBlankText text = false := by
  constructor
  · intro h
    have hget := get?_of_requiredText h
    refine ⟨hget, ?_⟩
    simpa [requiredText, hget] using h
  · rintro ⟨hget, hblank⟩
    simp [requiredText, hget, hblank]

theorem optionalText_of_requiredText {name text : String} (h : requiredText fields name = .ok text) :
    optionalText fields name = .ok (some text) := by
  simp [optionalText, get?_of_requiredText h, h, Except.map]

/-- What a text of a template may become with an item put in: anything if it is an item reference,
and otherwise what it is. -/
def Becomes (template text : Option String) : Prop :=
  (∃ reference, template = some reference ∧ (path? reference).isSome) ∨ template = text

theorem becomes_some_iff {template text : String} :
    Becomes (some template) (some text) ↔ (path? template).isSome ∨ template = text := by
  simp [Becomes]

/-- A text that is there with an item put in is there before. -/
theorem exists_requiredText {name text : String}
    (h : requiredText (substituteFields item fields) name = .ok text) :
    ∃ template, requiredText fields name = .ok template ∧ Becomes (some template) (some text) := by
  obtain ⟨hget, hblank⟩ := requiredText_eq_ok.1 h
  rw [get?_substituteFields] at hget
  obtain ⟨v, hv, hsubstitute⟩ := Option.map_eq_some_iff.1 hget
  cases v with
  | string template =>
    refine ⟨template, ?_⟩
    rw [becomes_some_iff, requiredText_eq_ok]
    cases hp : path? template with
    -- An item reference is not blank, whatever it becomes.
    | some path => exact ⟨⟨hv, not_isBlankText_of_path? hp⟩, .inl rfl⟩
    | none =>
      rw [substitute_string hp] at hsubstitute
      obtain rfl := Value.string.inj hsubstitute
      exact ⟨⟨hv, hblank⟩, .inr rfl⟩
  | array items => cases hsubstitute
  | object fields => cases hsubstitute
  | _ => cases hsubstitute

theorem exists_optionalText {name : String} {text : Option String}
    (h : optionalText (substituteFields item fields) name = .ok text) :
    ∃ template, optionalText fields name = .ok template ∧ Becomes template text := by
  unfold optionalText at h
  rw [get?_substituteFields] at h
  split at h
  · rename_i hget
    refine ⟨text, ?_, .inr rfl⟩
    simpa [optionalText, Option.map_eq_none_iff.1 hget] using h
  · rename_i hget
    obtain ⟨v, hv, hsubstitute⟩ := Option.map_eq_some_iff.1 hget
    cases v with
    | null =>
      refine ⟨text, ?_, .inr rfl⟩
      simpa [optionalText, hv] using h
    | string template =>
      cases hp : path? template with
      | some path =>
        have hrequired := requiredText_eq_ok.2 ⟨hv, not_isBlankText_of_path? hp⟩
        exact ⟨some template, optionalText_of_requiredText hrequired, .inl ⟨template, rfl, by simp [hp]⟩⟩
      | none =>
        rw [substitute_string hp] at hsubstitute
        cases hsubstitute
    | _ => cases hsubstitute
  · obtain ⟨found, hrequired, rfl⟩ := Outcome.map_eq_ok.1 h
    obtain ⟨template, htemplate, hbecomes⟩ := exists_requiredText hrequired
    exact ⟨some template, optionalText_of_requiredText htemplate, hbecomes⟩

/-! ## From the instruction to the template -/

theorem checkNames_substitute (item : Value) (fields : Fields Value) :
    checkNames (substituteFields item fields) = checkNames fields := by
  simp [checkNames, Fields.has, get?_substituteFields, names_substituteFields]

theorem checkLocator_of_becomes {template locator : Option String} (hb : Becomes template locator)
    (h : checkLocator .concrete contract run locator = .ok ()) :
    checkLocator .template contract' run' template = .ok () := by
  rw [checkLocator_eq_ok] at h ⊢
  rcases hb with ⟨reference, rfl, hp⟩ | rfl
  · rintro _ ⟨⟩
    -- The template leaves its locator for later.
    exact .inr (.inr hp)
  · intro locator hl
    exact (h locator hl).imp_right fun hknown => .inl (hknown.resolve_right nofun)

theorem checkInstance_of_becomes {template locator : Option String} (hl : Becomes template locator)
    (hr : Becomes (some run') (some run))
    (h : checkInstance .concrete contract run locator = .ok ()) :
    checkInstance .template contract' run' template = .ok () := by
  rw [checkInstance_eq_ok] at h ⊢
  intro hkind hnone
  rcases hl with ⟨reference, rfl, -⟩ | rfl
  · cases hnone
  · rcases becomes_some_iff.1 hr with hp | rfl
    · exact hp
    · cases h hkind hnone

theorem shape_substitute {v : Value} (h : isReference v = false) :
    (substitute item v).shape = v.shape := by
  cases v with
  | string text =>
    have hp : path? text = none := by simpa [isReference, Value.text?] using h
    rw [substitute_string hp]
  | _ => rfl

theorem exists_inputsOf {inputs : List Value}
    (h : inputsOf .concrete contract run (substituteFields item fields) = .ok inputs) :
    ∃ template, inputsOf .template contract' run' fields = .ok template := by
  have hconcrete := exists_inputsOf_iff.1 ⟨inputs, h⟩
  refine exists_inputsOf_iff.2 fun v hv => ?_
  have hget : Fields.get? (substituteFields item fields) "inputs" = some (substitute item v) := by
    simp [get?_substituteFields, hv]
  cases hp : isReference v with
  | true => exact .inr (.inl hp)
  -- Only references change their shape when the item is put in.
  | false =>
    rw [← shape_substitute hp]
    exact (hconcrete _ hget).imp_right fun hauthored => .inr (hauthored.resolve_left nofun)

theorem exists_outputsOf {outputs : OutputSpec}
    (h : outputsOf .concrete contract run (substituteFields item fields) = .ok outputs) :
    ∃ template, outputsOf .template contract' run' fields = .ok template := by
  have hconcrete := exists_outputsOf_iff.1 ⟨outputs, h⟩
  refine exists_outputsOf_iff.2 fun v hv => ?_
  have hget : Fields.get? (substituteFields item fields) "outputs" = some (substitute item v) := by
    simp [get?_substituteFields, hv]
  cases hp : isReference v with
  | true => exact .inr (.inl hp)
  | false =>
    rw [← shape_substitute hp]
    refine (hconcrete _ hget).imp_right fun hauthored => .inr ?_
    obtain ⟨spec, hspec, hplaces⟩ := hauthored.resolve_left nofun
    obtain ⟨template, htemplate, hkept⟩ := exists_ofValue_of_substitute hspec
    refine ⟨template, htemplate, fun target hmem => ?_⟩
    -- what is not left for later is a destination of the instruction too, and there all are known
    cases ht : path? target with
    | some path => exact .inl (by simp [defers_template, ht])
    | none => exact .inr ((hplaces target (hkept target hmem ht)).resolve_left nofun)

/-- A template that an item turns into an instruction describes one as a template. -/
theorem exists_describes_of_substitute {i : Instruction}
    (h : Describes .concrete (substituteFields item fields) i) :
    ∃ template, Describes .template fields template := by
  obtain ⟨description, hdescription, -⟩ := exists_optionalText h.description
  obtain ⟨contract, hcontract, -⟩ := exists_requiredText h.contract
  obtain ⟨run, hrun, hmethod⟩ := exists_requiredText h.run
  obtain ⟨locator, hlocator, hplace⟩ := exists_optionalText h.locator
  have hinputs : ∃ inputs, inputsOf .template contract run fields = .ok inputs :=
    exists_inputsOf h.inputs
  have houtputs : ∃ outputs, outputsOf .template contract run fields = .ok outputs :=
    exists_outputsOf h.outputs
  obtain ⟨inputs, hinputs⟩ := hinputs
  obtain ⟨outputs, houtputs⟩ := houtputs
  exact ⟨⟨description, contract, locator, run, inputs, outputs, .ofMethod run⟩,
    { names := checkNames_substitute item fields ▸ h.names
      description := hdescription
      contract := hcontract
      run := hrun
      locator := hlocator
      address := checkLocator_of_becomes hplace h.address
      inputs := hinputs
      outputs := houtputs
      located := checkInstance_of_becomes hplace hmethod h.located
      kind := rfl }⟩

/-! ## Templates without item references -/

theorem defers_eq_false {stage : Stage} {v : Value} (h : v.ItemFree) : stage.defers v = false := by
  have hreference : isReference v = false := by
    cases v with
    | string text =>
      have hp : path? text = none := h
      simp [isReference, Value.text?, hp]
    | _ => rfl
  simp [Stage.defers, hreference]

theorem path?_of_destination {target : String} {place : Namespace × String}
    (h : destination target = .ok place) : path? target = none := by
  unfold destination at h
  split at h
  · rename_i hread
    exact Reference.path?_of_parse? hread
  · split at h
    · cases h
    -- What has no dollar sign in front is a path into the outputs.
    · rename_i hsign
      exact path?_eq_none_of_head? hsign

/-- The export of outputs that are ready has no item reference in it. -/
theorem Describes.itemFree_outputs {i : Instruction} {v : Value} (h : Describes .concrete fields i)
    (hv : Fields.get? fields "outputs" = some v) : v.exposed.ItemFree := by
  rcases exists_outputsOf_iff.1 ⟨_, h.outputs⟩ v hv with hnull | hauthored
  · cases v <;> trivial
  · obtain ⟨spec, hspec, hplaces⟩ := hauthored.resolve_left nofun
    refine (itemFree_exposed_iff v).2 fun text hmem => ?_
    rw [← OutputSpec.destinations_ofJson? (OutputSpec.ofValue_eq_ok.1 hspec).1] at hmem
    obtain ⟨place, hplace⟩ := (hplaces text hmem).resolve_left nofun
    exact path?_of_destination hplace

/-- Without item references nothing is left for later. -/
theorem exists_describes_of_itemFree {template : Instruction}
    (hfree : (Value.object fields).ItemFree)
    (houtputs : ∀ v, Fields.get? fields "outputs" = some v → v.exposed.ItemFree)
    (h : Describes .template fields template) : ∃ i, Describes .concrete fields i := by
  -- What has no item reference is not left for later, and so it is checked in templates as well.
  have hready {name : String} {v : Value} (hv : Fields.get? fields name = some v) :
      Stage.template.defers v = false :=
    defers_eq_false (Value.EachTextOfFields.get? hfree hv)
  have hinputs : ∃ inputs, inputsOf .concrete template.contract template.run fields = .ok inputs := by
    have hauthored := exists_inputsOf_iff.1 ⟨_, h.inputs⟩
    refine exists_inputsOf_iff.2 fun v hv => ?_
    exact (hauthored v hv).imp_right fun hlist => .inr (hlist.resolve_left (by simp [hready hv]))
  have hspec : ∃ outputs, outputsOf .concrete template.contract template.run fields = .ok outputs := by
    have hauthored := exists_outputsOf_iff.1 ⟨_, h.outputs⟩
    refine exists_outputsOf_iff.2 fun v hv => (hauthored v hv).imp_right fun hspec => .inr ?_
    obtain ⟨spec, hspec, hplaces⟩ := hspec.resolve_left (by simp [hready hv])
    refine ⟨spec, hspec, fun target hmem => .inr ?_⟩
    refine (hplaces target hmem).resolve_left ?_
    rw [OutputSpec.destinations_ofJson? (OutputSpec.ofValue_eq_ok.1 hspec).1] at hmem
    simp [defers_template, (itemFree_exposed_iff v).1 (houtputs v hv) target hmem]
  have haddress : checkLocator .concrete template.contract template.run template.locator = .ok () := by
    refine checkLocator_eq_ok.2 fun text hl => ?_
    have hknown := checkLocator_eq_ok.1 h.address text hl
    have hdefers := hready (get?_of_optionalText (hl ▸ h.locator))
    exact hknown.imp_right fun hother => .inl (hother.resolve_right (by simp [hdefers]))
  have hlocated : checkInstance .concrete template.contract template.run template.locator =
      .ok () := by
    refine checkInstance_eq_ok.2 fun hkind hnone => ?_
    have hdefers := checkInstance_eq_ok.1 h.located hkind hnone
    rw [hready (get?_of_requiredText h.run)] at hdefers
    cases hdefers
  obtain ⟨inputs, hinputs⟩ := hinputs
  obtain ⟨outputs, hspec⟩ := hspec
  exact ⟨{ template with inputs, outputs },
    { h with address := haddress, inputs := hinputs, outputs := hspec, located := hlocated }⟩

theorem checkTemplate_eq_ok :
    checkTemplate (.object fields) = .ok () ↔ ∃ template, Describes .template fields template := by
  rw [checkTemplate, Outcome.map_eq_ok]
  exact exists_congr fun template => (and_iff_left rfl).trans ofFields_eq_ok

theorem exists_build_iff :
    (∃ i, build (.object fields) = .ok i) ↔ ∃ i, Describes .concrete fields i :=
  exists_congr fun _ => ofFields_eq_ok

/-- No template is refused that some item turns into an instruction. Without item references in its
strings a template stays the same whatever the item, and is an instruction exactly when it is
accepted as a template and no handle in its outputs has an item reference as a field. -/
theorem template_accepted (item : Value) (fields : Fields Value) :
    ((∃ i, build (substitute item (.object fields)) = .ok i) →
        checkTemplate (.object fields) = .ok ()) ∧
      ((Value.object fields).ItemFree →
        substitute item (.object fields) = .object fields ∧
          ((∃ i, build (.object fields) = .ok i) ↔
            checkTemplate (.object fields) = .ok () ∧
              ∀ v, Fields.get? fields "outputs" = some v → v.exposed.ItemFree)) := by
  have haccepted (h : ∃ i, build (substitute item (.object fields)) = .ok i) :
      checkTemplate (.object fields) = .ok () := by
    rw [substitute] at h
    obtain ⟨i, hi⟩ := exists_build_iff.1 h
    exact checkTemplate_eq_ok.2 (exists_describes_of_substitute hi)
  refine ⟨haccepted, fun hfree => ?_⟩
  -- The item is of no account here, as nothing refers to it.
  have hself : substitute item (.object fields) = .object fields := substitute_eq_self hfree
  refine ⟨hself, fun h => ⟨haccepted (by rwa [hself]), ?_⟩, ?_⟩
  · obtain ⟨i, hi⟩ := exists_build_iff.1 h
    exact fun v => hi.itemFree_outputs
  · rintro ⟨h, houtputs⟩
    obtain ⟨template, htemplate⟩ := checkTemplate_eq_ok.1 h
    exact exists_build_iff.2 (exists_describes_of_itemFree hfree houtputs htemplate)

/-- A locator of the item, and a template in which nothing is left open. -/
theorem template_accepted_deposit :
    let item : Value := .object [("vault", .string "$deployed.vault")]
    let template : Fields Value :=
      [("contract", .string "Vault"), ("run", .string "deposit"), ("at", .string "$item.vault")]
    let closed : Fields Value :=
      [("contract", .string "Vault"), ("run", .string "deposit"), ("at", .string "$deployed.vault"),
        ("outputs", .object [("receipt", .string "receipts.last")])]
    (∃ i, build (substitute item (.object template)) = .ok i) ∧
      checkTemplate (.object template) = .ok () ∧ (Value.object closed).ItemFree ∧
      ∃ i, build (.object closed) = .ok i := by
  intro item template closed
  have hsome : (build (substitute item (.object template))).toOption.isSome = true := by
    decide +kernel
  obtain ⟨i, hi⟩ := Option.isSome_iff_exists.1 hsome
  have hbuilt : ∃ i, build (substitute item (.object template)) = .ok i :=
    ⟨i, Outcome.toOption_eq_some.1 hi⟩
  have haccepted : checkTemplate (.object closed) = .ok () :=
    Outcome.toOption_eq_some.1 (by decide +kernel)
  have hfree : (Value.object closed).ItemFree := by
    simp [closed, Value.ItemFree, Value.EachText, Value.EachTextOfFields, path?]
  have houtputs : ∀ v, Fields.get? closed "outputs" = some v → v.exposed.ItemFree := by
    simp [closed, Fields.get?, Value.exposed, Value.exposedFields, Value.ItemFree, Value.EachText,
      Value.EachTextOfFields, path?]
  exact ⟨hbuilt, (template_accepted item template).1 hbuilt, hfree,
    ((template_accepted item closed).2 hfree).2.2 ⟨haccepted, houtputs⟩⟩

/-- No string of the template is an item reference, and no item changes it: it is accepted as a
template because the contract of a handle in its outputs is one, and is no instruction. -/
theorem handle_in_outputs_accepted :
    let fields : Fields Value :=
      [("contract", .string "Vault"), ("run", .string "at"), ("outputs", .handle ⟨"$item.name", none⟩)]
    (Value.object fields).ItemFree ∧
      (∀ item, substitute item (.object fields) = .object fields) ∧
      checkTemplate (.object fields) = .ok () ∧
      build (.object fields) = .error (.foreignDestination "$item.name") := by
  intro fields
  have hfree : (Value.object fields).ItemFree := by
    simp [fields, Value.ItemFree, Value.EachText, Value.EachTextOfFields, path?]
  have hrefused : Outcome.error? (build (.object fields)) = some (.foreignDestination "$item.name") := by
    decide +kernel
  exact ⟨hfree, fun _ => substitute_eq_self hfree, Outcome.toOption_eq_some.1 (by decide +kernel),
    Outcome.error?_eq_some.1 hrefused⟩

end Playbook.Instruction
