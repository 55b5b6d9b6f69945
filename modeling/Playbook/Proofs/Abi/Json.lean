import Playbook.Abi.Json
import Playbook.Proofs.Json.Compact

/-!
# Artifacts read back

The spellings that an artifact is read from, told as relations beside the readers: a record is an
object with each declared member at most once, in any order and among any others, or the list of its
fields. The main statement: an artifact is read again from its written text, and the texts that an
artifact is read from are those in its form.
-/

namespace Playbook

open Json

namespace Abi

/-! ## Records -/

theorem mapM_eq_some_iff {α β : Type} {f : α → Option β} {xs : List α} {ys : List β} :
    xs.mapM f = some ys ↔ List.Forall₂ (fun x y => f x = some y) xs ys := by
  induction xs generalizing ys with
  | nil => simp [eq_comm]
  | cons x xs ih =>
    simp only [List.mapM_cons, List.forall₂_cons_left_iff, ← ih]
    cases f x <;> cases xs.mapM f <;> simp [eq_comm]

theorem named?_eq_some_iff {members : List (List TextUnit × Spelling)}
    {entries : List (String × Spelling)} :
    named? members = some entries ↔ List.Forall₂ Named members entries := by
  induction members generalizing entries with
  | nil => simp [named?, eq_comm]
  | cons member members ih =>
    obtain ⟨units, value⟩ := member
    simp only [named?, List.forall₂_cons_left_iff, ← ih, Named]
    cases TextUnit.text? units <;> cases named? members <;> simp [eq_comm]

/-- The name stands once among the entries, with the value, or not at all. -/
def Holds (entries : List (String × Spelling)) (name : String) (value : Option Spelling) : Prop :=
  entries.filter (·.1 == name) = value.toList.map (name, ·)

theorem member?_eq_some_iff {entries : List (String × Spelling)} {name : String}
    {value : Option Spelling} : member? entries name = some value ↔ Holds entries name value := by
  have hname : ∀ entry ∈ entries.filter (·.1 == name), entry.1 = name := fun _ h =>
    beq_iff_eq.1 (List.mem_filter.1 h).2
  unfold member? Holds
  -- The reader and the relation look at the same entries: none, one or several.
  generalize entries.filter (·.1 == name) = held at hname ⊢
  match held with
  | [] => cases value <;> simp
  | [(key, found)] =>
    obtain rfl : key = name := hname _ (List.mem_singleton_self _)
    cases value <;> simp
  | _ :: _ :: _ => cases value <;> simp

/-- A spelling gives each of the names a value or none: as an object, or as a list of the first
values. -/
inductive Presents (names : List String) : Spelling → List (Option Spelling) → Prop where
  | object {members : List (List TextUnit × Spelling)} {entries : List (String × Spelling)}
      {values : List (Option Spelling)} (hnamed : List.Forall₂ Named members entries)
      (hvalues : List.Forall₂ (Holds entries) names values) :
      Presents names (.object members) values
  | array {items : List Spelling} {absent : Nat} (h : items.length + absent = names.length) :
      Presents names (.array items) (items.map some ++ List.replicate absent none)

theorem record?_eq_some_iff {names : List String} {spelling : Spelling}
    {values : List (Option Spelling)} :
    record? names spelling = some values ↔ Presents names spelling values := by
  constructor
  · intro h
    unfold record? at h
    split at h
    case h_1 members =>
      obtain ⟨entries, hnamed, hvalues⟩ := Option.bind_eq_some_iff.1 h
      simp only [mapM_eq_some_iff, member?_eq_some_iff] at hvalues
      exact .object (named?_eq_some_iff.1 hnamed) hvalues
    case h_2 items =>
      split at h
      · cases h
        exact .array (by omega)
      · cases h
    case h_3 => cases h
  · intro h
    cases h with
    | object hnamed hvalues =>
      rw [record?, named?_eq_some_iff.2 hnamed, Option.bind_some, mapM_eq_some_iff]
      simpa only [member?_eq_some_iff] using hvalues
    | array h => rw [record?, if_pos (by omega), ← h, Nat.add_sub_cancel_left]

theorem Holds.of_perm {names : List String} {entries others : List (String × Spelling)}
    (h : (entries.filter (·.1 ∈ names)).Perm (others.filter (·.1 ∈ names))) {name : String}
    (hname : name ∈ names) {value : Option Spelling} (hvalue : Holds entries name value) :
    Holds others name value := by
  -- Among the declared entries, those of a declared name are all there are of it.
  have hfilter (entries : List (String × Spelling)) :
      (entries.filter (·.1 ∈ names)).filter (·.1 == name) = entries.filter (·.1 == name) := by
    rw [List.filter_filter]
    apply List.filter_congr
    rintro ⟨key, _⟩ -
    cases hkey : key == name with
    | false => rfl
    | true => simpa [beq_iff_eq.1 hkey] using hname
  have hperm := h.filter (·.1 == name)
  rw [hfilter, hfilter, hvalue] at hperm
  cases value with
  | none => exact hperm.nil_eq.symm
  | some value => exact hperm.singleton_eq.symm

/-- Two objects have the same declared members, in any order and among any others. -/
def SameDeclared (names : List String) (members others : List (List TextUnit × Spelling)) : Prop :=
  ∃ entries otherEntries, List.Forall₂ Named members entries ∧
    List.Forall₂ Named others otherEntries ∧
    (entries.filter (·.1 ∈ names)).Perm (otherEntries.filter (·.1 ∈ names))

/-- Undeclared members and the order of the members do not matter. -/
theorem Presents.object_of_sameDeclared {names : List String}
    {members others : List (List TextUnit × Spelling)} (hsame : SameDeclared names members others)
    {values : List (Option Spelling)} (h : Presents names (.object members) values) :
    Presents names (.object others) values := by
  obtain ⟨entries, otherEntries, hnamed, hothers, hperm⟩ := hsame
  cases h with
  | object hagain hvalues =>
    -- The entries of an object are determined by its members.
    rw [← named?_eq_some_iff] at hnamed hagain
    cases hnamed.symm.trans hagain
    rw [List.forall₂_iff_zip] at hvalues
    refine .object hothers (List.forall₂_iff_zip.2 ⟨hvalues.1, fun hmem => ?_⟩)
    exact (hvalues.2 hmem).of_perm hperm (List.of_mem_zip hmem).1

/-! ## Forms -/

/-- A text is spelled by units that denote it. -/
inductive TextForm : Spelling → String → Prop where
  | units {units : List TextUnit} {text : String} (h : TextUnit.text? units = some text) :
      TextForm (.string units) text

/-- A text, or null for none. -/
inductive NullableForm : Spelling → Option String → Prop where
  | null : NullableForm .null none
  | text {spelling : Spelling} {text : String} (h : TextForm spelling text) :
      NullableForm spelling (some text)

/-- A kind is its word, or an object with its word over null. -/
inductive KindForm : Spelling → EntryKind → Prop where
  | word {units : List TextUnit} {kind : EntryKind} (h : TextUnit.text? units = some kind.name) :
      KindForm (.string units) kind
  | variant {units : List TextUnit} {kind : EntryKind}
      (h : TextUnit.text? units = some kind.name) : KindForm (.object [(units, .null)]) kind

/-- A list is spelled item by item. -/
inductive ListForm {α : Type} (Form : Spelling → α → Prop) : Spelling → List α → Prop where
  | items {items : List Spelling} {values : List α} (h : List.Forall₂ Form items values) :
      ListForm Form (.array items) values

/-- A field has a value in its form, or is left out and has its default. -/
inductive Optionally {α : Type} (default : α) (Form : Spelling → α → Prop) :
    Option Spelling → α → Prop where
  | absent : Optionally default Form none default
  | present {spelling : Spelling} {value : α} (h : Form spelling value) :
      Optionally default Form (some spelling) value

/-- A parameter has a type, and a name unless it is empty. -/
inductive ParameterForm : Spelling → Parameter → Prop where
  | fields {spelling type : Spelling} {name : Option Spelling} {p : Parameter}
      (hfields : Presents ["name", "type"] spelling [name, some type])
      (hname : Optionally "" TextForm name p.name) (htype : TextForm type p.type) :
      ParameterForm spelling p

/-- An entry of an interface has its fields, each of them with a default. -/
inductive SignatureForm : Spelling → Signature → Prop where
  | fields {spelling : Spelling} {kind name inputs outputs : Option Spelling} {s : Signature}
      (hfields : Presents ["type", "name", "inputs", "outputs"] spelling
        [kind, name, inputs, outputs])
      (hkind : Optionally .function KindForm kind s.kind)
      (hname : Optionally none NullableForm name s.name)
      (hinputs : Optionally [] (ListForm ParameterForm) inputs s.inputs)
      (houtputs : Optionally [] (ListForm ParameterForm) outputs s.outputs) :
      SignatureForm spelling s

/-- An artifact has a contract, and a list of entries unless it has none. -/
inductive ArtifactForm : Spelling → Artifact → Prop where
  | fields {spelling contract : Spelling} {entries : Option Spelling} {a : Artifact}
      (hfields : Presents ["contractName", "abi"] spelling [some contract, entries])
      (hcontract : TextForm contract a.contract)
      (hentries : Optionally [] (ListForm SignatureForm) entries a.entries) :
      ArtifactForm spelling a

/-! ## Readers -/

/-- A reader takes the spellings of a form, each to its value. -/
def Recognises {α : Type} (read? : Spelling → Option α) (Form : Spelling → α → Prop) : Prop :=
  ∀ spelling value, read? spelling = some value ↔ Form spelling value

theorem recognises_text : Recognises text? TextForm := by
  intro spelling text
  constructor
  · intro h
    unfold text? at h
    split at h
    · exact .units h
    · cases h
  · rintro ⟨h⟩
    exact h

theorem recognises_nullableText : Recognises nullableText? NullableForm := by
  intro spelling name
  constructor
  · intro h
    unfold nullableText? at h
    split at h
    · cases h
      exact .null
    · obtain ⟨text, htext, rfl⟩ := Option.map_eq_some_iff.1 h
      exact .text ((recognises_text _ _).1 htext)
  · intro h
    cases h with
    | null => rfl
    | text htext =>
      -- A text is no null, so that the reader comes to its second case.
      obtain ⟨htext⟩ := htext
      rw [nullableText?, text?, htext, Option.map_some]
      nofun

theorem ofName?_eq_some_iff {name : String} {kind : EntryKind} :
    EntryKind.ofName? name = some kind ↔ name = kind.name := by
  constructor
  · intro h
    have hfound := List.find?_some (p := fun kind : EntryKind => kind.name == name) h
    exact (beq_iff_eq.1 hfound).symm
  · rintro rfl
    cases kind <;> decide

theorem recognises_kind : Recognises kind? KindForm := by
  intro spelling kind
  constructor
  · intro h
    unfold kind? at h
    split at h
    case h_3 => cases h
    all_goals
      obtain ⟨name, htext, hname⟩ := Option.bind_eq_some_iff.1 h
      rw [ofName?_eq_some_iff.1 hname] at htext
    · exact .word htext
    · exact .variant htext
  · intro h
    cases h with
    | word h | variant h => rw [kind?, h, Option.bind_some, ofName?_eq_some_iff]

section

variable {α : Type} {item? : Spelling → Option α} {Form : Spelling → α → Prop}

theorem Recognises.list (h : Recognises item? Form) :
    Recognises (list? item?) (ListForm Form) := by
  have hitem : (fun spelling value => item? spelling = some value) = Form :=
    funext₂ fun spelling value => propext (h spelling value)
  intro spelling values
  constructor
  · intro hread
    unfold list? at hread
    split at hread
    · rw [mapM_eq_some_iff, hitem] at hread
      exact .items hread
    · cases hread
  · rintro ⟨hitems⟩
    rw [list?, mapM_eq_some_iff, hitem]
    exact hitems

theorem Recognises.defaulted (h : Recognises item? Form) {default value : α}
    {field : Option Spelling} :
    defaulted default item? field = some value ↔ Optionally default Form field value := by
  constructor
  · intro hread
    cases field with
    | none =>
      cases hread
      exact .absent
    | some spelling => exact .present ((h _ _).1 hread)
  · rintro (_ | hform)
    · rfl
    · exact (h _ _).2 hform

end

theorem recognises_parameter : Recognises parameter? ParameterForm := by
  intro spelling p
  constructor
  · intro h
    obtain ⟨values, hfields, h⟩ := Option.bind_eq_some_iff.1 h
    split at h
    · obtain ⟨name, hname, h⟩ := Option.bind_eq_some_iff.1 h
      obtain ⟨type, htype, h⟩ := Option.bind_eq_some_iff.1 h
      cases h
      exact .fields (record?_eq_some_iff.1 hfields) (recognises_text.defaulted.1 hname)
        ((recognises_text _ _).1 htype)
    · cases h
  · rintro ⟨hfields, hname, htype⟩
    simp only [parameter?, record?_eq_some_iff.2 hfields, recognises_text.defaulted.2 hname,
      (recognises_text _ _).2 htype, Option.bind_eq_bind, Option.bind_some, Option.pure_def]

theorem recognises_signature : Recognises signature? SignatureForm := by
  have hparameters := recognises_parameter.list
  intro spelling s
  constructor
  · intro h
    obtain ⟨values, hfields, h⟩ := Option.bind_eq_some_iff.1 h
    split at h
    · obtain ⟨kind, hkind, h⟩ := Option.bind_eq_some_iff.1 h
      obtain ⟨name, hname, h⟩ := Option.bind_eq_some_iff.1 h
      obtain ⟨inputs, hinputs, h⟩ := Option.bind_eq_some_iff.1 h
      obtain ⟨outputs, houtputs, h⟩ := Option.bind_eq_some_iff.1 h
      cases h
      exact .fields (record?_eq_some_iff.1 hfields) (recognises_kind.defaulted.1 hkind)
        (recognises_nullableText.defaulted.1 hname) (hparameters.defaulted.1 hinputs)
        (hparameters.defaulted.1 houtputs)
    · cases h
  · rintro ⟨hfields, hkind, hname, hinputs, houtputs⟩
    simp only [signature?, record?_eq_some_iff.2 hfields, recognises_kind.defaulted.2 hkind,
      recognises_nullableText.defaulted.2 hname, hparameters.defaulted.2 hinputs,
      hparameters.defaulted.2 houtputs, Option.bind_eq_bind, Option.bind_some, Option.pure_def]

theorem recognises_artifact : Recognises artifact? ArtifactForm := by
  have hsignatures := recognises_signature.list
  intro spelling a
  constructor
  · intro h
    obtain ⟨values, hfields, h⟩ := Option.bind_eq_some_iff.1 h
    split at h
    · obtain ⟨contract, hcontract, h⟩ := Option.bind_eq_some_iff.1 h
      obtain ⟨entries, hentries, h⟩ := Option.bind_eq_some_iff.1 h
      cases h
      exact .fields (record?_eq_some_iff.1 hfields) ((recognises_text _ _).1 hcontract)
        (hsignatures.defaulted.1 hentries)
    · cases h
  · rintro ⟨hfields, hcontract, hentries⟩
    simp only [artifact?, record?_eq_some_iff.2 hfields, (recognises_text _ _).2 hcontract,
      hsignatures.defaulted.2 hentries, Option.bind_eq_bind, Option.bind_some, Option.pure_def]

/-! ## Written documents -/

/-- What is written is read back as a spelling of the form. -/
def Writes {α : Type} (toJson : α → Json) (Form : Spelling → α → Prop) : Prop :=
  ∀ value, ∃ spelling, ReadsBack (toJson value) spelling ∧ Form spelling value

theorem writes_text : Writes Json.string TextForm := by
  intro text
  obtain ⟨units, htext, hread⟩ := exists_readsBack_string text
  exact ⟨_, hread, .units htext⟩

theorem writes_kind : Writes (fun kind : EntryKind => .string kind.name) KindForm := by
  intro kind
  obtain ⟨units, htext, hread⟩ := exists_readsBack_string kind.name
  exact ⟨_, hread, .word htext⟩

theorem Writes.list {α : Type} {toJson : α → Json} {Form : Spelling → α → Prop}
    (h : Writes toJson Form) :
    Writes (fun values => .array (values.map toJson)) (ListForm Form) := by
  intro values
  choose spelling hread hform using h
  refine ⟨.array (values.map spelling), readsBack_array ?_, .items ?_⟩
  · rw [List.forall₂_map_left_iff, List.forall₂_map_right_iff, List.forall₂_same]
    exact fun value _ => hread value
  · rw [List.forall₂_map_left_iff, List.forall₂_same]
    exact fun value _ => hform value

/-- An object of members that are read back is read as a record. -/
theorem exists_readsBack_record {members : List (String × Json)}
    {entries : List (String × Spelling)} (hmembers : List.Forall₂ EntryReadsBack members entries)
    {names : List String} {values : List (Option Spelling)}
    (hvalues : List.Forall₂ (Holds entries) names values) :
    ∃ spelling, ReadsBack (.object members) spelling ∧ Presents names spelling values := by
  obtain ⟨spelled, hnamed, hread⟩ := exists_readsBack_object hmembers
  exact ⟨.object spelled, hread, .object hnamed hvalues⟩

theorem writes_parameter : Writes parameterToJson ParameterForm := by
  intro p
  obtain ⟨name, hnameRead, hname⟩ := writes_text p.name
  obtain ⟨type, htypeRead, htype⟩ := writes_text p.type
  have hmembers : List.Forall₂ EntryReadsBack [("name", .string p.name), ("type", .string p.type)]
      [("name", name), ("type", type)] :=
    .cons ⟨rfl, hnameRead⟩ (.cons ⟨rfl, htypeRead⟩ .nil)
  have hvalues : List.Forall₂ (Holds [("name", name), ("type", type)]) ["name", "type"]
      [some name, some type] := by
    simp [Holds]
  obtain ⟨spelling, hread, hfields⟩ := exists_readsBack_record hmembers hvalues
  exact ⟨spelling, hread, .fields hfields (.present hname) htype⟩

theorem signatureToJson_eq (s : Signature) :
    signatureToJson s = .object
      (("type", .string s.kind.name) :: s.name.toList.map (fun name => ("name", .string name)) ++
        [("inputs", .array (s.inputs.map parameterToJson)),
          ("outputs", .array (s.outputs.map parameterToJson))]) := by
  unfold signatureToJson
  cases s.name <;> rfl

/-- An absent name is left out of the members, and a name that is left out is absent. -/
theorem exists_readsBack_name (name : Option String) : ∃ spelled : Option Spelling,
    List.Forall₂ EntryReadsBack (name.toList.map fun name => ("name", .string name))
      (spelled.toList.map ("name", ·)) ∧
    Optionally none NullableForm spelled name := by
  cases name with
  | none => exact ⟨none, .nil, .absent⟩
  | some name =>
    obtain ⟨spelling, hread, hform⟩ := writes_text name
    exact ⟨some spelling, .cons ⟨rfl, hread⟩ .nil, .present (.text hform)⟩

theorem writes_signature : Writes signatureToJson SignatureForm := by
  intro s
  obtain ⟨kind, hkindRead, hkind⟩ := writes_kind s.kind
  obtain ⟨name, hnameRead, hname⟩ := exists_readsBack_name s.name
  obtain ⟨inputs, hinputsRead, hinputs⟩ := writes_parameter.list s.inputs
  obtain ⟨outputs, houtputsRead, houtputs⟩ := writes_parameter.list s.outputs
  have hmembers : List.Forall₂ EntryReadsBack
      (("type", .string s.kind.name) :: s.name.toList.map (fun name => ("name", .string name)) ++
        [("inputs", .array (s.inputs.map parameterToJson)),
          ("outputs", .array (s.outputs.map parameterToJson))])
      (("type", kind) :: name.toList.map ("name", ·) ++
        [("inputs", inputs), ("outputs", outputs)]) :=
    .cons ⟨rfl, hkindRead⟩ (List.rel_append hnameRead
      (.cons ⟨rfl, hinputsRead⟩ (.cons ⟨rfl, houtputsRead⟩ .nil)))
  have hvalues : List.Forall₂
      (Holds (("type", kind) :: name.toList.map ("name", ·) ++
        [("inputs", inputs), ("outputs", outputs)]))
      ["type", "name", "inputs", "outputs"] [some kind, name, some inputs, some outputs] := by
    cases name <;> simp [Holds]
  obtain ⟨spelling, hread, hfields⟩ := exists_readsBack_record hmembers hvalues
  rw [← signatureToJson_eq] at hread
  exact ⟨spelling, hread,
    .fields hfields (.present hkind) hname (.present hinputs) (.present houtputs)⟩

theorem writes_artifact : Writes artifactToJson ArtifactForm := by
  intro a
  obtain ⟨contract, hcontractRead, hcontract⟩ := writes_text a.contract
  obtain ⟨entries, hentriesRead, hentries⟩ := writes_signature.list a.entries
  have hmembers : List.Forall₂ EntryReadsBack
      [("contractName", .string a.contract), ("abi", .array (a.entries.map signatureToJson))]
      [("contractName", contract), ("abi", entries)] :=
    .cons ⟨rfl, hcontractRead⟩ (.cons ⟨rfl, hentriesRead⟩ .nil)
  have hvalues : List.Forall₂ (Holds [("contractName", contract), ("abi", entries)])
      ["contractName", "abi"] [some contract, some entries] := by
    simp [Holds]
  obtain ⟨spelling, hread, hfields⟩ := exists_readsBack_record hmembers hvalues
  exact ⟨spelling, hread, .fields hfields hcontract (.present hentries)⟩

/-- An artifact is read from the texts that are spelled in its form. -/
theorem readArtifact?_eq_some_iff {text : String} {a : Artifact} :
    readArtifact? text = some a ↔
      ∃ spelling, Spelling.read? text = some spelling ∧ ArtifactForm spelling a := by
  rw [readArtifact?, Option.bind_eq_some_iff]
  exact exists_congr fun spelling => and_congr_right fun _ => recognises_artifact spelling a

theorem readArtifact?_writeArtifact (a : Artifact) : readArtifact? (writeArtifact a) = some a := by
  obtain ⟨spelling, hread, hform⟩ := writes_artifact a
  exact readArtifact?_eq_some_iff.2 ⟨spelling, hread.read?, hform⟩

/-- An artifact is read from its written text again as it was, and the texts that it is read from
are those in its form, where each record is an object, whatever its order and its undeclared
members, or a list of fields. So whatever text an artifact was read from, once written it is read as
the same artifact, with the same methods, constructor and signatures. -/
theorem artifact_round_trip :
    (∀ a, readArtifact? (writeArtifact a) = some a) ∧
    (∀ text a, readArtifact? text = some a ↔
      ∃ spelling, Spelling.read? text = some spelling ∧ ArtifactForm spelling a) ∧
    (∀ names members others values, SameDeclared names members others →
      Presents names (.object members) values → Presents names (.object others) values) ∧
    ∀ text a, readArtifact? text = some a →
      ∃ again, readArtifact? (writeArtifact a) = some again ∧ again = a ∧
        (∀ name, again.method? name = a.method? name) ∧
        again.constructor? = a.constructor? ∧
        ∀ run, again.signature? run = a.signature? run := by
  refine ⟨readArtifact?_writeArtifact, fun _ _ => readArtifact?_eq_some_iff,
    fun _ _ _ _ hsame => Presents.object_of_sameDeclared hsame, fun _ a _ => ?_⟩
  exact ⟨a, readArtifact?_writeArtifact a, rfl, fun _ => rfl, rfl, fun _ => rfl⟩

/-- A text with members out of order, unknown and left out, records as lists, and a kind over null;
and the members of a parameter out of order, with an unknown one before them. -/
theorem artifact_round_trip_token :
    let text := "\x7b\"bytecode\": \"0x60\", \"abi\": [" ++
      "\x7b\"inputs\": [\x7b\"type\": \"int8\"\x7d], \"type\": \x7b\"constructor\": null\x7d\x7d," ++
      "[\"function\", \"send\", [[\"to\", \"bool\"]]], \x7b\"name\": null, \"gas\": 1e999\x7d], " ++
      "\"contractName\": \"Token\"\x7d"
    let a : Artifact := ⟨"Token", [⟨.constructor, none, [⟨"", "int8"⟩], []⟩,
      ⟨.function, some "send", [⟨"to", "bool"⟩], []⟩, ⟨.function, none, [], []⟩]⟩
    let amount := Spelling.string ("amount".toList.map .char)
    let wide := Spelling.string ("int8".toList.map .char)
    let spelled (entries : List (String × Spelling)) : Spelling :=
      .object (entries.map fun entry => (entry.1.toList.map .char, entry.2))
    Presents ["name", "type"] (spelled [("indexed", .null), ("type", wide), ("name", amount)])
        [some amount, some wide] ∧
      readArtifact? text = some a ∧
      ∃ again, readArtifact? (writeArtifact a) = some again ∧ again = a ∧
        (∀ name, again.method? name = a.method? name) ∧
        again.constructor? = a.constructor? ∧
        ∀ run, again.signature? run = a.signature? run := by
  intro text a amount wide spelled
  obtain ⟨-, -, hmembers, hagain⟩ := artifact_round_trip
  have hread : readArtifact? text = some a := by decide +kernel
  have htext (name : String) : TextUnit.text? (name.toList.map .char) = some name := by
    have hspells : List.Forall₂ TextUnit.Spells (name.toList.map .char) name.toList := by
      rw [List.forall₂_map_left_iff, List.forall₂_same]
      exact fun c _ => .char c
    rw [TextUnit.text?, TextUnit.chars?_of_spells hspells, Option.map_some, String.ofList_toList]
  have hnamed (entries : List (String × Spelling)) : List.Forall₂ Named
      (entries.map fun entry => (entry.1.toList.map .char, entry.2)) entries := by
    rw [List.forall₂_map_left_iff, List.forall₂_same]
    exact fun entry _ => ⟨htext entry.1, rfl⟩
  have hordered : Presents ["name", "type"] (spelled [("name", amount), ("type", wide)])
      [some amount, some wide] :=
    .object (hnamed _) (by simp [Holds])
  have hsame : SameDeclared ["name", "type"] _ _ :=
    ⟨[("name", amount), ("type", wide)], [("indexed", .null), ("type", wide), ("name", amount)],
      hnamed _, hnamed _, by simpa using List.Perm.swap _ _ _⟩
  exact ⟨hmembers _ _ _ _ hsame hordered, hread, hagain text a hread⟩

end Abi

end Playbook
