import Playbook.Path.Lookup
import Playbook.Proofs.Value.WellFormed
import Playbook.Value.Export

/-!
# Plain values

The plain value of a value is what reading its export back gives: the same tree, with strings for
big integers, instants and bytes, and objects for handles. It exports to the same document, and is
read at every path at which the value is read.
-/

namespace Playbook.Value

/-- The value that reading the export of a value back gives. -/
def plain (v : Value) : Value :=
  ofJson v.toJson

def plainFields (fields : Fields Value) : Fields Value :=
  fields.map fun (name, v) => (name, v.plain)

mutual

/-- Reading a document and exporting what is read loses nothing. -/
theorem toJson_ofJson : ∀ document : Json, (ofJson document).toJson = document
  | .null | .bool _ | .number _ | .string _ => rfl
  | .array items => by rw [ofJson, toJson, itemsToJson_itemsOfJson items]
  | .object members => by rw [ofJson, toJson, fieldsToJson_fieldsOfJson members]

theorem itemsToJson_itemsOfJson : ∀ items : List Json, itemsToJson (itemsOfJson items) = items
  | [] => rfl
  | item :: rest => by
    rw [itemsOfJson, itemsToJson, toJson_ofJson item, itemsToJson_itemsOfJson rest]

theorem fieldsToJson_fieldsOfJson : ∀ members : List (String × Json),
    fieldsToJson (fieldsOfJson members) = members
  | [] => rfl
  | (name, value) :: rest => by
    rw [fieldsOfJson, fieldsToJson, toJson_ofJson value, fieldsToJson_fieldsOfJson rest]

end

theorem toJson_plain (v : Value) : v.plain.toJson = v.toJson :=
  toJson_ofJson v.toJson

/-! ## Containers -/

theorem itemsOfJson_itemsToJson (items : List Value) :
    itemsOfJson (itemsToJson items) = items.map plain := by
  induction items with
  | nil => rfl
  | cons item rest ih =>
    rw [itemsToJson, itemsOfJson, ih]
    rfl

theorem fieldsOfJson_fieldsToJson (fields : Fields Value) :
    fieldsOfJson (fieldsToJson fields) = plainFields fields := by
  induction fields with
  | nil => rfl
  | cons entry rest ih =>
    obtain ⟨name, v⟩ := entry
    rw [fieldsToJson, fieldsOfJson, ih]
    rfl

theorem plain_array (items : List Value) : (array items).plain = .array (items.map plain) := by
  rw [plain, toJson, ofJson, itemsOfJson_itemsToJson]

theorem plain_object (fields : Fields Value) :
    (object fields).plain = .object (plainFields fields) := by
  rw [plain, toJson, ofJson, fieldsOfJson_fieldsToJson]

/-- A handle becomes the object of its fields. -/
theorem plain_handle (h : ContractHandle) : (handle h).plain = .object h.fields := by
  obtain ⟨contract, address⟩ := h
  cases address <;> rfl

theorem names_plainFields (fields : Fields Value) :
    Fields.names (plainFields fields) = Fields.names fields := by
  simp [Fields.names, plainFields]

theorem get?_plainFields (fields : Fields Value) (name : String) :
    Fields.get? (plainFields fields) name = (Fields.get? fields name).map plain :=
  Fields.get?_map plain fields name

/-! ## Reading -/

theorem child?_plain {v child : Value} {segment : Segment} (h : v.child? segment = some child) :
    v.plain.child? segment = some child.plain := by
  cases v with
  | object fields =>
    cases segment with
    | key key =>
      have hg : Fields.get? fields key = some child := h
      rw [plain_object, child?, get?_plainFields, hg]
      rfl
    | index index => cases h
  | array items =>
    rw [plain_array]
    cases segment with
    | key key =>
      obtain ⟨i, hi, hget⟩ := Option.bind_eq_some_iff.1 h
      rw [child?, hi, Option.bind_some, List.getElem?_map, hget]
      rfl
    | index index =>
      have hget : items[index]? = some child := h
      rw [child?, List.getElem?_map, hget]
      rfl
  | _ => cases segment <;> cases h

/-- What is read at a path is read there in the plain value, as a plain value. -/
theorem lookup_plain {v w : Value} {path : Path} (h : v.lookup path = some w) :
    v.plain.lookup path = some w.plain := by
  induction path generalizing v with
  | nil => exact congrArg (fun v => some v.plain) (Option.some.inj h)
  | cons segment rest ih =>
    obtain ⟨child, hc, hw⟩ := Option.bind_eq_some_iff.1 h
    rw [lookup, child?_plain hc]
    exact ih hw

end Playbook.Value
