import Playbook.Proofs.Convert.RoundTrip
import Playbook.Proofs.Instruction.Expansion
import Playbook.Proofs.Output.Texts
import Playbook.Proofs.Value.Exposed
import Playbook.Proofs.Value.Texts

/-!
# Templates and what becomes of them

A template is judged before its items are known, so what holds of it has to follow from what holds
of it with an item put in. The strings of a template that are no item references are still there
afterwards, and a template whose export is no output specification does not become one.
-/

namespace Playbook

/-- No string in the value is an item reference. -/
def Value.ItemFree (v : Value) : Prop :=
  v.EachText fun text => Item.path? text = none

namespace Item

open Value

variable {item : Value}

/-! ## Item references -/

theorem head?_of_path? {text path : String} (h : path? text = some path) :
    text.toList.head? = some '$' := by
  rw [path?.eq_def] at h
  split at h
  · rename_i htext
    rw [htext]
    rfl
  · cases h

theorem path?_eq_none_of_head? {text : String} (h : text.toList.head? ≠ some '$') :
    path? text = none := by
  cases hp : path? text with
  | none => rfl
  | some path => exact absurd (head?_of_path? hp) h

theorem not_isBlankText_of_path? {text path : String} (h : path? text = some path) :
    Text.isBlankText text = false := by
  have hmem : '$' ∈ text.toList := List.mem_of_head? (head?_of_path? h)
  refine Bool.eq_false_iff.2 fun hblank => ?_
  have hdollar := List.all_eq_true.1 hblank _ hmem
  cases hdollar

theorem substitute_string {text : String} (h : path? text = none) :
    substitute item (.string text) = .string text := by
  simp [substitute, resolve?, text?, h]

mutual

/-- Without item references a template stays as it is. -/
theorem substitute_eq_self : ∀ {v : Value}, v.ItemFree → substitute item v = v
  | .string _, h => substitute_string h
  | .array items, h => by rw [substitute, substituteItems_eq_self h]
  | .object fields, h => by rw [substitute, substituteFields_eq_self h]
  | .null, _ | .bool _, _ | .number _, _ | .bigInt _, _ | .date _, _ | .bytes _, _
  | .handle _, _ => by simp [substitute]

theorem substituteItems_eq_self : ∀ {items : List Value},
    EachTextOfItems (fun text => path? text = none) items → substituteItems item items = items
  | [], _ => rfl
  | v :: rest, h => by
    rw [substituteItems, substitute_eq_self h.1, substituteItems_eq_self h.2]

theorem substituteFields_eq_self : ∀ {fields : List (String × Value)},
    EachTextOfFields (fun text => path? text = none) fields → substituteFields item fields = fields
  | [], _ => rfl
  | (_, v) :: rest, h => by
    rw [substituteFields, substitute_eq_self h.1, substituteFields_eq_self h.2]

end

/-! ## Strings of the export -/

mutual

/-- A string of the export that is no item reference is there with an item put in as well. -/
theorem mem_texts_substitute (item : Value) {text : String} (hp : path? text = none) :
    ∀ v : Value, text ∈ v.toJson.texts → text ∈ (substitute item v).toJson.texts
  | .string other, h => by
    obtain rfl : text = other := by simpa [toJson, Json.texts] using h
    rwa [substitute_string hp]
  | .array items, h => by
    rw [substitute]
    exact mem_textsOfItems_substitute item hp items h
  | .object fields, h => by
    rw [substitute]
    exact mem_textsOfMembers_substitute item hp fields h
  | .null, h | .bool _, h | .number _, h | .bigInt _, h | .date _, h | .bytes _, h
  | .handle _, h => by simpa [substitute] using h

theorem mem_textsOfItems_substitute (item : Value) {text : String} (hp : path? text = none) :
    ∀ items : List Value, text ∈ Json.textsOfItems (itemsToJson items) →
      text ∈ Json.textsOfItems (itemsToJson (substituteItems item items))
  | [], h => h
  | v :: rest, h =>
    List.mem_append.2 ((List.mem_append.1 h).imp (mem_texts_substitute item hp v)
      (mem_textsOfItems_substitute item hp rest))

theorem mem_textsOfMembers_substitute (item : Value) {text : String} (hp : path? text = none) :
    ∀ fields : List (String × Value), text ∈ Json.textsOfMembers (fieldsToJson fields) →
      text ∈ Json.textsOfMembers (fieldsToJson (substituteFields item fields))
  | [], h => h
  | (_, v) :: rest, h =>
    List.mem_append.2 ((List.mem_append.1 h).imp (mem_texts_substitute item hp v)
      (mem_textsOfMembers_substitute item hp rest))

end

/-! ## Strings that export makes -/

theorem dollar_not_mem_toDigits (n : Nat) : '$' ∉ Nat.toDigits 10 n :=
  Text.not_mem_toDigits rfl

theorem path?_repr (n : Int) : path? n.repr = none := by
  -- Texts that export makes of numbers have no dollar sign.
  have hmem : '$' ∉ (toString n).toList := by
    rw [IntegerText.toList_toString]
    split <;> simp [dollar_not_mem_toDigits]
  exact path?_eq_none_of_head? fun hhead => hmem (List.mem_of_head? hhead)

theorem path?_rfc3339 (t : Instant) : path? t.rfc3339 = none := by
  have hpadded (width n : Nat) : '$' ∉ (Text.decimalPadded width n).toList := by
    simp [Text.decimalPadded, dollar_not_mem_toDigits]
  have hyear (year : Int) : '$' ∉ (Instant.yearText year).toList := by
    rw [Instant.yearText]
    split
    · simp [hpadded]
    · split <;> simp [hpadded]
  have hmem : '$' ∉ t.rfc3339.toList := by simp [Instant.rfc3339, hpadded, hyear]
  exact path?_eq_none_of_head? fun hhead => hmem (List.mem_of_head? hhead)

theorem path?_hexText (octets : List UInt8) : path? (hexText octets) = none :=
  path?_eq_none_of_head? (by simp [hexText])

mutual

/-- The export has no item reference when no string and no field of a handle is one. -/
theorem itemFree_exposed_iff : ∀ v : Value,
    v.exposed.ItemFree ↔ ∀ text ∈ v.toJson.texts, path? text = none
  | .string text => by simp [exposed, ItemFree, EachText, toJson, Json.texts]
  | .bigInt n => by simp [exposed, ItemFree, EachText, toJson, Json.texts, path?_repr]
  | .date t => by simp [exposed, ItemFree, EachText, toJson, Json.texts, path?_rfc3339]
  | .bytes octets => by simp [exposed, ItemFree, EachText, toJson, Json.texts, path?_hexText]
  | .handle ⟨contract, none⟩ | .handle ⟨contract, some address⟩ => by
    simp [exposed, ContractHandle.fields, ItemFree, EachText, EachTextOfFields, toJson, Json.texts,
      Json.textsOfMembers]
  | .array items => by
    rw [exposed]
    exact itemFree_exposedItems_iff items
  | .object fields => by
    rw [exposed]
    exact itemFree_exposedFields_iff fields
  | .null | .bool _ | .number _ => by simp [exposed, ItemFree, EachText, toJson, Json.texts]

theorem itemFree_exposedItems_iff : ∀ items : List Value,
    EachTextOfItems (fun text => path? text = none) (exposedItems items) ↔
      ∀ text ∈ Json.textsOfItems (itemsToJson items), path? text = none
  | [] => by simp [exposedItems, EachTextOfItems, itemsToJson, Json.textsOfItems]
  | v :: rest => by
    have hfirst := itemFree_exposed_iff v
    have hrest := itemFree_exposedItems_iff rest
    simp only [ItemFree] at hfirst
    simp [exposedItems, EachTextOfItems, itemsToJson, Json.textsOfItems, hfirst, hrest,
      or_imp, forall_and]

theorem itemFree_exposedFields_iff : ∀ fields : List (String × Value),
    EachTextOfFields (fun text => path? text = none) (exposedFields fields) ↔
      ∀ text ∈ Json.textsOfMembers (fieldsToJson fields), path? text = none
  | [] => by simp [exposedFields, EachTextOfFields, fieldsToJson, Json.textsOfMembers]
  | (_, v) :: rest => by
    have hfirst := itemFree_exposed_iff v
    have hrest := itemFree_exposedFields_iff rest
    simp only [ItemFree] at hfirst
    simp [exposedFields, EachTextOfFields, fieldsToJson, Json.textsOfMembers, hfirst, hrest,
      or_imp, forall_and]

end

/-! ## Specifications in templates -/

theorem exists_text_of_substitute {v : Value} {text : String}
    (h : (substitute item v).toJson = .string text) : ∃ text, v.toJson = .string text := by
  cases v with
  | string other => exact ⟨other, rfl⟩
  | array items => cases h
  | object fields => cases h
  | _ => exact ⟨text, h⟩

theorem isSome_strings?_of_substitute : ∀ {items : List Value},
    (Targets.strings? (itemsToJson (substituteItems item items))).isSome →
      (Targets.strings? (itemsToJson items)).isSome
  | [], _ => rfl
  | v :: rest, h => by
    obtain ⟨⟨text, htext⟩, hrest⟩ := Targets.isSome_strings?_cons.1 h
    exact Targets.isSome_strings?_cons.2
      ⟨exists_text_of_substitute htext, isSome_strings?_of_substitute hrest⟩

theorem isSome_targets_of_substitute {v : Value}
    (h : (Targets.ofJson? (substitute item v).toJson).isSome) :
    (Targets.ofJson? v.toJson).isSome := by
  cases v with
  | string text => rfl
  | array items =>
    rw [substitute, toJson, Targets.ofJson?, Option.isSome_map] at h
    rw [toJson, Targets.ofJson?, Option.isSome_map]
    exact isSome_strings?_of_substitute h
  | object fields => cases h
  | _ => exact h

theorem isSome_ofMembers?_of_substitute : ∀ {fields : List (String × Value)},
    (Targets.ofMembers? (fieldsToJson (substituteFields item fields))).isSome →
      (Targets.ofMembers? (fieldsToJson fields)).isSome
  | [], _ => rfl
  | (_, v) :: rest, h => by
    obtain ⟨htargets, hrest⟩ := Targets.isSome_ofMembers?_cons.1 h
    exact Targets.isSome_ofMembers?_cons.2
      ⟨isSome_targets_of_substitute htargets, isSome_ofMembers?_of_substitute hrest⟩

mutual

/-- What is a specification with an item put in is one before. -/
theorem isSome_ofJson?_of_substitute : ∀ {v : Value},
    (OutputSpec.ofJson? (substitute item v).toJson).isSome → (OutputSpec.ofJson? v.toJson).isSome
  | .string _, _ => rfl
  | .array items, h => by
    rw [substitute, toJson, OutputSpec.ofJson?, Option.isSome_map] at h
    rw [toJson, OutputSpec.ofJson?, Option.isSome_map]
    exact isSome_ofItems?_of_substitute h
  | .object fields, h => by
    rw [substitute, toJson, OutputSpec.ofJson?, Option.isSome_map] at h
    rw [toJson, OutputSpec.ofJson?, Option.isSome_map]
    exact isSome_ofMembers?_of_substitute h
  | .null, h | .bool _, h | .number _, h | .bigInt _, h | .date _, h | .bytes _, h
  | .handle _, h => h

theorem isSome_ofItems?_of_substitute : ∀ {items : List Value},
    (OutputSpec.ofItems? (itemsToJson (substituteItems item items))).isSome →
      (OutputSpec.ofItems? (itemsToJson items)).isSome
  | [], _ => rfl
  | v :: rest, h => by
    obtain ⟨hfirst, hrest⟩ := OutputSpec.isSome_ofItems?_cons.1 h
    exact OutputSpec.isSome_ofItems?_cons.2
      ⟨isSome_ofJson?_of_substitute hfirst, isSome_ofItems?_of_substitute hrest⟩

end

/-- What spells a specification with an item put in spells one before, and the destinations that are
no item references are still there. -/
theorem exists_ofValue_of_substitute {v : Value} {spec : OutputSpec}
    (h : OutputSpec.ofValue (substitute item v) = .ok spec) :
    ∃ template, OutputSpec.ofValue v = .ok template ∧
      ∀ text ∈ template.destinations, path? text = none → text ∈ spec.destinations := by
  obtain ⟨hspec, hblank⟩ := OutputSpec.ofValue_eq_ok.1 h
  obtain ⟨template, htemplate⟩ := Option.isSome_iff_exists.1
    (isSome_ofJson?_of_substitute (by rw [hspec]; rfl))
  refine ⟨template, OutputSpec.ofValue_eq_ok.2 ⟨htemplate, ?_⟩, ?_⟩
  · intro text hmem
    -- An item reference is not blank, and any other destination is still there with the item.
    cases hp : path? text with
    | some path => exact not_isBlankText_of_path? hp
    | none => exact hblank text (mem_texts_substitute item hp v hmem)
  · intro text hmem hp
    rw [OutputSpec.destinations_ofJson? htemplate] at hmem
    rw [OutputSpec.destinations_ofJson? hspec]
    exact mem_texts_substitute item hp v hmem

end Item

end Playbook
