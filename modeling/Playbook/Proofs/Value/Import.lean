import Mathlib.Data.List.Induction
import Playbook.Proofs.Convert.Width
import Playbook.Proofs.Value.Plain

/-!
# The two ways from JSON text to values

A JSON text becomes a value through a document or straight from its spelling. The one way values a
whole object before it is converted, the other puts each member into the fields as it comes, and
each takes over numbers in its own way. The main statement: both ways give the same value or none,
and the value exports to the document of the text.
-/

namespace Playbook

/-! ## Repeated names -/

namespace Fields

variable {α β : Type}

theorem ofEntries_concat (entries : List (String × α)) (entry : String × α) :
    ofEntries (entries ++ [entry]) = put (ofEntries entries) entry.1 entry.2 := by
  simp [ofEntries]

/-- Every name stands where it comes first. -/
theorem names_ofEntries (entries : List (String × α)) :
    names (ofEntries entries) = (entries.map Prod.fst).eraseDups := by
  induction entries using List.reverseRecOn with
  | nil => rfl
  | append_singleton entries entry ih =>
    have hmem : entry.1 ∈ names (ofEntries entries) ↔ entry.1 ∈ entries.map Prod.fst := by
      rw [ih, List.mem_eraseDups]
    rw [ofEntries_concat, List.map_append, List.map_singleton, List.eraseDups_append, ← ih]
    -- A name that is there keeps its place, and a new one comes last.
    by_cases hname : entry.1 ∈ names (ofEntries entries)
    · rw [names_put_of_mem _ hname]
      simp [List.removeAll, hmem.1 hname]
    · rw [names_put_of_not_mem _ hname]
      simp [List.removeAll, mt hmem.2 hname, List.eraseDups_cons]

/-- Every name has the entry that comes last under it. -/
theorem get?_ofEntries (entries : List (String × α)) (name : String) :
    get? (ofEntries entries) name = get? entries.reverse name := by
  induction entries using List.reverseRecOn with
  | nil => rfl
  | append_singleton entries entry ih =>
    obtain ⟨key, new⟩ := entry
    rw [ofEntries_concat, List.reverse_append, List.reverse_singleton, List.singleton_append, get?]
    split
    · rename_i hkey
      rw [hkey, get?_put_same]
    · rename_i hkey
      rw [get?_put_of_ne _ _ (Ne.symm hkey), ih]

theorem map_ofEntries (f : α → β) (entries : List (String × α)) :
    (ofEntries entries).map (fun (name, entry) => (name, f entry)) =
      ofEntries (entries.map fun (name, entry) => (name, f entry)) := by
  induction entries using List.reverseRecOn with
  | nil => rfl
  | append_singleton entries entry ih =>
    rw [ofEntries_concat, map_put, ih, List.map_append, List.map_singleton, ofEntries_concat]

end Fields

namespace Value

open Json

/-! ## Numbers -/

/-- An integer that a literal spells is one of 64 bits. -/
theorem fits_of_ofLiteral? {literal : Literal} {n : Int}
    (h : Number.ofLiteral? literal = some (.int n)) : Number.Fits n := by
  rw [Number.ofLiteral?] at h
  -- What counts is the bound on the number that is spelled, not how it is computed.
  generalize (if literal.negative then (-(Text.decimalValue literal.whole : Nat) : Int)
    else (Text.decimalValue literal.whole : Nat)) = signed at h
  split at h
  · rename_i hint
    obtain rfl : signed = n := by simpa using h
    exact hint.2.2.1
  · obtain ⟨x, -, hx⟩ := Option.map_eq_some_iff.1 h
    cases hx

/-- An integer of 64 bits is handed over at a width of 64 bits. -/
theorem ofNumber?_of_fits {n : Int} (h : Number.Fits n) : ofNumber? (.int n) = some (.int n) := by
  obtain ⟨width, hwidth⟩ := Width.exists_narrowest? (n := n) (by have := h.1; omega)
    (by have := h.2; omega)
  rw [ofNumber?, hwidth, Option.map_some, ofWidth_of_narrowest? hwidth, ofInt, if_pos h]

/-- A number that a literal spells is taken over as it is. -/
theorem ofNumber?_ofLiteral? (literal : Literal) :
    (Number.ofLiteral? literal).bind ofNumber? = (Number.ofLiteral? literal).map .number := by
  cases hn : Number.ofLiteral? literal with
  | none => rfl
  | some n =>
    cases n with
    | int n => exact ofNumber?_of_fits (fits_of_ofLiteral? hn)
    | float x => rfl

/-! ## Both ways -/

theorem fieldsOfJson_eq_map (members : List (String × Json)) :
    fieldsOfJson members = members.map fun (name, document) => (name, ofJson document) := by
  induction members with
  | nil => rfl
  | cons member rest ih =>
    obtain ⟨name, document⟩ := member
    rw [fieldsOfJson, ih, List.map_cons]

/-- Members that are converted after they were put together, or before. -/
theorem fieldsOfJson_ofEntries (members : List (String × Json)) :
    fieldsOfJson (Fields.ofEntries members) = Fields.ofEntries (fieldsOfJson members) := by
  rw [fieldsOfJson_eq_map, fieldsOfJson_eq_map, Fields.map_ofEntries]

mutual

theorem denoted?_eq : ∀ spelling : Spelling, denoted? spelling = spelling.denote?.map ofJson
  | .null | .bool _ => rfl
  | .number literal => by
    rw [denoted?, Spelling.denote?, ofNumber?_ofLiteral?, Option.map_map]
    rfl
  | .string units => by
    rw [denoted?, Spelling.denote?, Option.map_map]
    rfl
  | .array items => by
    rw [denoted?, Spelling.denote?, denotedItems?_eq items, Option.map_map, Option.map_map]
    rfl
  | .object members => by
    rw [denoted?, Spelling.denote?, denotedFields?_eq members [], Option.map_map, Option.map_map]
    refine congrArg (Option.map · _) (funext fun ms => ?_)
    exact congrArg object (fieldsOfJson_ofEntries ms).symm

theorem denotedItems?_eq : ∀ items : List Spelling,
    denotedItems? items = (Spelling.denoteItems? items).map itemsOfJson
  | [] => rfl
  | item :: rest => by
    rw [denotedItems?, Spelling.denoteItems?, denoted?_eq item, denotedItems?_eq rest]
    cases item.denote? <;> cases Spelling.denoteItems? rest <;> rfl

/-- Members that are put into fields one by one are put there after they are all converted. -/
theorem denotedFields?_eq : ∀ (members : List (List TextUnit × Spelling)) (fields : Fields Value),
    denotedFields? fields members = (Spelling.denoteMembers? members).map fun ms =>
      (fieldsOfJson ms).foldl (fun fields entry => Fields.put fields entry.1 entry.2) fields
  | [], fields => rfl
  | (name, spelling) :: rest, fields => by
    rw [denotedFields?, Spelling.denoteMembers?, denoted?_eq spelling]
    cases TextUnit.text? name with
    | none => rfl
    | some key =>
      cases spelling.denote? with
      | none => rfl
      | some document =>
        simp only [Option.bind_some, Option.map_some, denotedFields?_eq rest, Option.map_map]
        rfl

end

theorem ofSpelling?_eq (spelling : Spelling) :
    ofSpelling? spelling = spelling.toJson?.map ofJson := by
  rw [ofSpelling?, Spelling.toJson?, denoted?_eq]
  split <;> rfl

/-! ## Spelled objects -/

/-- The name and the value that a spelled member denotes. -/
def Denotes (member : List TextUnit × Spelling) (entry : String × Value) : Prop :=
  TextUnit.text? member.1 = some entry.1 ∧ denoted? member.2 = some entry.2

theorem denotedFields?_eq_some {fields result : Fields Value}
    {members : List (List TextUnit × Spelling)} (h : denotedFields? fields members = some result) :
    ∃ entries, List.Forall₂ Denotes members entries ∧
      result = entries.foldl (fun fields entry => Fields.put fields entry.1 entry.2) fields := by
  induction members generalizing fields with
  | nil => exact ⟨[], .nil, (Option.some.inj h).symm⟩
  | cons member rest ih =>
    obtain ⟨name, spelling⟩ := member
    obtain ⟨key, hkey, h⟩ := Option.bind_eq_some_iff.1 h
    obtain ⟨v, hv, h⟩ := Option.bind_eq_some_iff.1 h
    obtain ⟨entries, hentries, rfl⟩ := ih h
    exact ⟨(key, v) :: entries, .cons ⟨hkey, hv⟩ hentries, rfl⟩

/-- A repeated name of a spelled object keeps its first place and its last value. -/
theorem denoted?_object_eq_some {members : List (List TextUnit × Spelling)} {v : Value}
    (h : denoted? (.object members) = some v) :
    ∃ entries fields, List.Forall₂ Denotes members entries ∧ v = .object fields ∧
      Fields.names fields = (entries.map Prod.fst).eraseDups ∧
      ∀ name, Fields.get? fields name = Fields.get? entries.reverse name := by
  obtain ⟨fields, hfields, rfl⟩ := Option.map_eq_some_iff.1 h
  obtain ⟨entries, hentries, rfl⟩ := denotedFields?_eq_some hfields
  exact ⟨entries, _, hentries, rfl, Fields.names_ofEntries entries, Fields.get?_ofEntries entries⟩

/-- A JSON text becomes the same value, or none, straight from its spelling and through a document,
and the value exports to the document. An object has each name where it is spelled first, with the
value that is spelled last under it. -/
theorem imports_agree :
    (∀ text, (Spelling.read? text).bind ofSpelling? = (Json.read? text).map ofJson) ∧
    (∀ text v, (Spelling.read? text).bind ofSpelling? = some v → Json.read? text = some v.toJson) ∧
    ∀ members v, denoted? (.object members) = some v →
      ∃ entries fields, List.Forall₂ Denotes members entries ∧ v = .object fields ∧
        Fields.names fields = (entries.map Prod.fst).eraseDups ∧
        ∀ name, Fields.get? fields name = Fields.get? entries.reverse name := by
  have hagree (text : String) :
      (Spelling.read? text).bind ofSpelling? = (Json.read? text).map ofJson := by
    rw [Json.read?, funext ofSpelling?_eq, Option.map_bind]
    rfl
  refine ⟨hagree, fun text v h => ?_, fun members v h => denoted?_object_eq_some h⟩
  rw [hagree] at h
  obtain ⟨document, hdocument, rfl⟩ := Option.map_eq_some_iff.1 h
  rw [hdocument, toJson_ofJson]

/-- A name is repeated around a nested object, and another one in it, whose last value is beyond 64
bits: both ways give the last values at the first places. -/
theorem imports_agree_repeated :
    let text := "\x7b\"b\": null, \"a\": [\x7b\"x\": null, \"y\": -3, \"x\": " ++
      "18446744073709551616\x7d], \"b\": 18446744073709551615\x7d"
    let inner : Value :=
      .object [("x", .number (.float ⟨false, 0x43F0000000000000⟩)), ("y", .int (-3))]
    let v : Value := .object [("b", .int 18446744073709551615), ("a", .array [inner])]
    let beyond : Literal := ⟨false, "18446744073709551616".toList, none, none⟩
    let members : List (List TextUnit × Spelling) := [([.char 'x'], .null),
      ([.char 'y'], .number ⟨true, ['3'], none, none⟩), ([.char 'x'], .number beyond)]
    (Spelling.read? text).bind ofSpelling? = some v ∧ Json.read? text = some v.toJson ∧
      denoted? (.object members) = some inner ∧
      ∃ entries fields, List.Forall₂ Denotes members entries ∧ inner = .object fields ∧
        Fields.names fields = (entries.map Prod.fst).eraseDups ∧
        ∀ name, Fields.get? fields name = Fields.get? entries.reverse name := by
  intro text inner v beyond members
  have hread : (Spelling.read? text).bind ofSpelling? = some v := by decide +kernel
  have hinner : denoted? (.object members) = some inner := by decide +kernel
  exact ⟨hread, imports_agree.2.1 text v hread, hinner, imports_agree.2.2 members inner hinner⟩

end Value

end Playbook
