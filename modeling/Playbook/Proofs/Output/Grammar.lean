import Playbook.Proofs.Output.Texts

/-!
# The grammar of specifications

A specification is written as a document in one way: a destination as a string, a mapping as an
object of strings and lists of strings, a list as a list. The main statement: a value spells a
specification exactly when its export is the document of that specification and no destination in it
is blank, and a value that spells none is refused for its shape, or else for its first blank
destination.
-/

namespace Playbook

open Text (isBlank isBlankText)

namespace Text

theorem isBlankText_eq_false_iff {text : String} :
    isBlankText text = false ↔ ∃ c ∈ text.toList, isBlank c = false := by
  simp [isBlankText]

/-- Texts that start differently are different, however they go on. -/
theorem append_ne_append {a b c d : String} (n : Nat) (ha : n ≤ a.toList.length)
    (hc : n ≤ c.toList.length) (hn : a.toList.take n ≠ c.toList.take n) : a ++ b ≠ c ++ d := by
  intro h
  have hstart := congrArg (fun text => text.toList.take n) h
  simp only [String.toList_append] at hstart
  rw [List.take_append_of_le_length ha, List.take_append_of_le_length hc] at hstart
  exact hn hstart

end Text

/-! ## Targets -/

namespace Targets

def toJson : Targets → Json
  | .one destination => .string destination
  | .many destinations => .array (destinations.map .string)

theorem strings?_eq_some_iff {items : List Json} {destinations : List String} :
    strings? items = some destinations ↔ items = destinations.map .string := by
  induction items generalizing destinations with
  | nil => cases destinations <;> simp [strings?]
  | cons item rest ih =>
    cases item with
    | string text =>
      cases destinations with
      | nil => simp [strings?]
      | cons destination others =>
        simp only [strings?, Option.map_eq_some_iff, ih, List.map_cons, List.cons.injEq,
          Json.string.injEq]
        constructor
        · rintro ⟨_, rfl, rfl, rfl⟩
          exact ⟨rfl, rfl⟩
        · rintro ⟨rfl, rfl⟩
          exact ⟨others, rfl, rfl, rfl⟩
    | _ => cases destinations <;> simp [strings?]

theorem ofJson?_eq_some_iff {document : Json} {targets : Targets} :
    ofJson? document = some targets ↔ document = targets.toJson := by
  cases document with
  | string text => cases targets <;> simp [ofJson?, toJson, eq_comm]
  | array items => cases targets <;> simp [ofJson?, toJson, strings?_eq_some_iff]
  | _ => cases targets <;> simp [ofJson?, toJson]

theorem ofMembers?_eq_some_iff {members : List (String × Json)} {sources : List (String × Targets)} :
    ofMembers? members = some sources ↔
      members = sources.map fun (source, targets) => (source, targets.toJson) := by
  induction members generalizing sources with
  | nil => cases sources <;> simp [ofMembers?]
  | cons member rest ih =>
    obtain ⟨source, document⟩ := member
    simp only [ofMembers?, Option.bind_eq_some_iff, Option.map_eq_some_iff, ofJson?_eq_some_iff, ih]
    cases sources with
    | nil => simp
    | cons entry others =>
      obtain ⟨other, targets⟩ := entry
      constructor
      · rintro ⟨_, rfl, _, rfl, hsources⟩
        obtain ⟨⟨rfl, rfl⟩, rfl⟩ : (source = other ∧ _ = targets) ∧ _ = others := by
          simpa using hsources
        rfl
      · intro h
        obtain ⟨⟨rfl, rfl⟩, rfl⟩ : (source = other ∧ document = targets.toJson) ∧ rest = _ := by
          simpa using h
        exact ⟨targets, rfl, others, rfl, rfl⟩

end Targets

/-! ## Specifications -/

namespace OutputSpec

mutual

def toJson : OutputSpec → Json
  | .path destination => .string destination
  | .mapping sources => .object (sources.map fun (source, targets) => (source, targets.toJson))
  | .list specs => .array (specsToJson specs)

def specsToJson : List OutputSpec → List Json
  | [] => []
  | spec :: rest => spec.toJson :: specsToJson rest

end

mutual

/-- Only the document of a specification is read as that specification. -/
theorem ofJson?_eq_some_iff : ∀ {document : Json} {spec : OutputSpec},
    ofJson? document = some spec ↔ document = spec.toJson
  | .string text, spec => by cases spec <;> simp [ofJson?, toJson, eq_comm]
  | .object members, spec => by
    cases spec <;> simp [ofJson?, toJson, Targets.ofMembers?_eq_some_iff]
  | .array items, spec => by
    cases spec with
    | list specs =>
      have hitems : ofItems? items = some specs ↔ items = specsToJson specs := ofItems?_eq_some_iff
      simp [ofJson?, toJson, hitems]
    | _ => simp [ofJson?, toJson]
  | .null, spec | .bool _, spec | .number _, spec => by cases spec <;> simp [ofJson?, toJson]

theorem ofItems?_eq_some_iff : ∀ {items : List Json} {specs : List OutputSpec},
    ofItems? items = some specs ↔ items = specsToJson specs
  | [], specs => by cases specs <;> simp [ofItems?, specsToJson]
  | item :: rest, specs => by
    simp only [ofItems?, Option.bind_eq_some_iff, Option.map_eq_some_iff]
    cases specs with
    | nil => simp [specsToJson]
    | cons spec others =>
      have hitem : ofJson? item = some spec ↔ item = spec.toJson := ofJson?_eq_some_iff
      have hrest : ofItems? rest = some others ↔ rest = specsToJson others := ofItems?_eq_some_iff
      rw [specsToJson, List.cons.injEq, ← hitem, ← hrest]
      simp

end

/-! ## The grammar -/

/-- The document is a string or a list of strings. -/
def IsTargets (document : Json) : Prop :=
  (∃ text, document = .string text) ∨ ∃ texts : List String, document = .array (texts.map .string)

/-- The document is a string, an object of strings and lists of strings, or a list of such
documents, nested to any depth. -/
inductive IsOutputs : Json → Prop where
  | destination (text : String) : IsOutputs (.string text)
  | mapping {members : List (String × Json)} (h : ∀ member ∈ members, IsTargets member.2) :
      IsOutputs (.object members)
  | list {items : List Json} (h : ∀ item ∈ items, IsOutputs item) : IsOutputs (.array items)

theorem isTargets_toJson (targets : Targets) : IsTargets targets.toJson := by
  cases targets with
  | one destination => exact .inl ⟨destination, rfl⟩
  | many destinations => exact .inr ⟨destinations, rfl⟩

theorem IsTargets.exists_targets {document : Json} (h : IsTargets document) :
    ∃ targets : Targets, document = targets.toJson := by
  rcases h with ⟨text, rfl⟩ | ⟨texts, rfl⟩
  · exact ⟨.one text, rfl⟩
  · exact ⟨.many texts, rfl⟩

mutual

theorem isOutputs_toJson : ∀ spec : OutputSpec, IsOutputs spec.toJson
  | .path destination => by
    rw [toJson]
    exact .destination destination
  | .mapping sources => by
    rw [toJson]
    refine .mapping fun member hmember => ?_
    obtain ⟨entry, -, rfl⟩ := List.mem_map.1 hmember
    exact isTargets_toJson entry.2
  | .list specs => by
    rw [toJson]
    exact .list (isOutputs_specsToJson specs)

theorem isOutputs_specsToJson : ∀ specs : List OutputSpec,
    ∀ item ∈ specsToJson specs, IsOutputs item
  | [], item, h => by
    rw [specsToJson] at h
    cases h
  | spec :: rest, item, h => by
    rw [specsToJson] at h
    rcases List.mem_cons.1 h with rfl | hrest
    · exact isOutputs_toJson spec
    · exact isOutputs_specsToJson rest item hrest

end

theorem exists_mapping {members : List (String × Json)}
    (h : ∀ member ∈ members, IsTargets member.2) :
    ∃ sources : List (String × Targets), members = sources.map fun entry => (entry.1, entry.2.toJson) := by
  induction members with
  | nil => exact ⟨[], rfl⟩
  | cons member rest ih =>
    obtain ⟨targets, htargets⟩ := (h member List.mem_cons_self).exists_targets
    obtain ⟨sources, hsources⟩ := ih fun other hother => h other (List.mem_cons_of_mem member hother)
    refine ⟨(member.1, targets) :: sources, ?_⟩
    rw [List.map_cons, ← htargets, ← hsources]

theorem exists_list {items : List Json} (h : ∀ item ∈ items, ∃ spec : OutputSpec, item = spec.toJson) :
    ∃ specs, items = specsToJson specs := by
  induction items with
  | nil => exact ⟨[], rfl⟩
  | cons item rest ih =>
    obtain ⟨spec, hspec⟩ := h item List.mem_cons_self
    obtain ⟨specs, hspecs⟩ := ih fun other hother => h other (List.mem_cons_of_mem item hother)
    exact ⟨spec :: specs, by rw [specsToJson, ← hspec, ← hspecs]⟩

/-- The grammar describes the documents of specifications. -/
theorem isOutputs_iff {document : Json} :
    IsOutputs document ↔ ∃ spec : OutputSpec, document = spec.toJson := by
  constructor
  -- Mappings and lists are collected from the targets and specifications of their members.
  · intro h
    induction h with
    | destination text => exact ⟨.path text, by rw [toJson]⟩
    | mapping h =>
      obtain ⟨sources, rfl⟩ := exists_mapping h
      exact ⟨.mapping sources, by rw [toJson]⟩
    | list _ ih =>
      obtain ⟨specs, rfl⟩ := exists_list ih
      exact ⟨.list specs, by rw [toJson]⟩
  · rintro ⟨spec, rfl⟩
    exact isOutputs_toJson spec

/-! ## Values -/

def blankMessage (destination : String) : String :=
  "outputs contain an empty destination path " ++ Text.quoted destination

theorem message_emptyDestination (destination : String) :
    (Malformed.emptyDestination destination).message = blankMessage destination := rfl

theorem message_shape (found : Shape) : (Malformed.shape found).message =
    "outputs must be a destination path, a mapping of result fields to destinations, " ++
      s!"or a list of those (found {found.name})" := rfl

theorem message_shape_ne (found : Shape) (destination : String) :
    (Malformed.shape found).message ≠ blankMessage destination := by
  rw [message_shape]
  -- `outputs must` and `outputs contain` differ in the ninth character.
  exact Text.append_ne_append 9 (by decide +kernel) (by decide +kernel) (by decide +kernel)

theorem isSome_ofJson?_iff {document : Json} :
    (ofJson? document).isSome ↔ IsOutputs document := by
  rw [isOutputs_iff, Option.isSome_iff_exists]
  exact exists_congr fun spec => ofJson?_eq_some_iff

/-- A value is refused for its shape, or for the first blank destination of what it spells. -/
theorem ofValue_eq_error {v : Value} {fault : Malformed} :
    ofValue v = .error fault ↔
      (¬ IsOutputs v.toJson ∧ fault = .shape v.shape) ∨
      (IsOutputs v.toJson ∧ ∃ text, v.toJson.texts.find? isBlankText = some text ∧
        fault = .emptyDestination text) := by
  rw [ofValue.eq_def, ← isSome_ofJson?_iff]
  -- The shape is judged first, and blanks only in what has the shape.
  cases hspec : ofJson? v.toJson with
  | none => simp [eq_comm]
  | some spec =>
    rw [← destinations_ofJson? hspec]
    cases hblank : spec.destinations.find? isBlankText with
    | none => simp [hblank]
    | some text => simp [hblank, eq_comm]

/-- A value spells the specification whose document is its export, if no destination in it is blank;
its destinations are the strings of that document from left to right. There is such a specification
exactly when the export is in the grammar, and a value in the grammar that spells none is refused
for its first blank destination, with the message for that. -/
theorem reads_grammar (v : Value) :
    (∀ spec, ofValue v = .ok spec ↔
        v.toJson = spec.toJson ∧ ∀ text ∈ v.toJson.texts, ∃ c ∈ text.toList, isBlank c = false) ∧
      (∀ spec, ofValue v = .ok spec → spec.destinations = v.toJson.texts) ∧
      ((∃ spec, ofValue v = .ok spec) ↔
        IsOutputs v.toJson ∧ ∀ text ∈ v.toJson.texts, ∃ c ∈ text.toList, isBlank c = false) ∧
      (∀ fault, ofValue v = .error fault →
        ((∃ text, fault.message = blankMessage text) ↔ IsOutputs v.toJson) ∧
          ∀ text, fault = .emptyDestination text →
            v.toJson.texts.find? isBlankText = some text) := by
  simp only [← Text.isBlankText_eq_false_iff]
  have hread (spec : OutputSpec) : ofValue v = .ok spec ↔
      v.toJson = spec.toJson ∧ ∀ text ∈ v.toJson.texts, isBlankText text = false := by
    rw [ofValue_eq_ok, ofJson?_eq_some_iff]
  refine ⟨hread, fun spec h => destinations_ofJson? (ofValue_eq_ok.1 h).1, ?_, fun fault h => ?_⟩
  · rw [exists_congr hread, exists_and_right, isOutputs_iff]
  · rcases ofValue_eq_error.1 h with ⟨hshape, rfl⟩ | ⟨hshape, text, hblank, rfl⟩
    · exact ⟨iff_of_false (fun ⟨text, hm⟩ => message_shape_ne _ text hm) hshape, nofun⟩
    · refine ⟨iff_of_true ⟨text, message_emptyDestination text⟩ hshape, ?_⟩
      rintro _ ⟨⟩
      exact hblank

/-- Destinations that are no strings before the export, and a blank one after another. -/
theorem reads_grammar_exported :
    let v : Value := .array [.string "$deployed.token", .handle ⟨"Vault", none⟩,
      .object [("tx", .bigInt 12), ("logs", .array [.bytes [1], .string "last"])]]
    let spec : OutputSpec := .list [.path "$deployed.token", .mapping [("contract", .one "Vault")],
      .mapping [("tx", .one "12"), ("logs", .many ["0x01", "last"])]]
    let blank : Value := .object [("tx", .array [.string "last", .string " "])]
    let fault : Malformed := .emptyDestination " "
    ofValue v = .ok spec ∧ spec.destinations = ["$deployed.token", "Vault", "12", "0x01", "last"] ∧
      ofValue blank = .error fault ∧ IsOutputs blank.toJson := by
  intro v spec blank fault
  have hdocument : v.toJson = spec.toJson := by decide +kernel
  have htexts : ∀ text ∈ v.toJson.texts, ∃ c ∈ text.toList, isBlank c = false := by
    simp only [← Text.isBlankText_eq_false_iff]
    decide +kernel
  have hspec : ofValue v = .ok spec := ((reads_grammar v).1 spec).2 ⟨hdocument, htexts⟩
  have hdestinations : v.toJson.texts = ["$deployed.token", "Vault", "12", "0x01", "last"] := by
    decide +kernel
  have hfault : ofValue blank = .error fault := Outcome.error?_eq_some.1 (by decide +kernel)
  have hshape := ((reads_grammar blank).2.2.2 fault hfault).1.1 ⟨" ", message_emptyDestination " "⟩
  exact ⟨hspec, ((reads_grammar v).2.1 spec hspec).trans hdestinations, hfault, hshape⟩

end OutputSpec

end Playbook
