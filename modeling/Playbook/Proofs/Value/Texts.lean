import Playbook.Proofs.Path.Hop
import Playbook.Proofs.Value.WellFormed
import Playbook.Reference

/-!
# The strings in a value

What holds of every string in a value holds of every string in its parts, and what holds of every
string in a template and in an item, holds of every string in the template with the item put in.
-/

namespace Playbook

/-- The entry under a name is one of the entries. -/
theorem Fields.mem_of_get? {α : Type} {fields : Fields α} {name : String} {entry : α}
    (h : get? fields name = some entry) : (name, entry) ∈ fields := by
  induction fields with
  | nil => cases h
  | cons first rest ih =>
    obtain ⟨key, other⟩ := first
    simp only [get?] at h
    split at h
    · simp_all
    · exact List.mem_cons_of_mem _ (ih h)

namespace Value

mutual

/-- Every string in the value, at any depth, has a property. The names of objects are no strings,
nor is what a handle holds. -/
def EachText (P : String → Prop) : Value → Prop
  | .string text => P text
  | .array items => EachTextOfItems P items
  | .object fields => EachTextOfFields P fields
  | _ => True

def EachTextOfItems (P : String → Prop) : List Value → Prop
  | [] => True
  | item :: rest => EachText P item ∧ EachTextOfItems P rest

def EachTextOfFields (P : String → Prop) : List (String × Value) → Prop
  | [] => True
  | (_, v) :: rest => EachText P v ∧ EachTextOfFields P rest

end

variable {P : String → Prop}

theorem eachTextOfItems_iff {items : List Value} :
    EachTextOfItems P items ↔ ∀ v ∈ items, v.EachText P := by
  induction items with
  | nil => simp [EachTextOfItems]
  | cons item rest ih => simp [EachTextOfItems, ih]

theorem eachTextOfFields_iff {fields : List (String × Value)} :
    EachTextOfFields P fields ↔ ∀ entry ∈ fields, entry.2.EachText P := by
  induction fields with
  | nil => simp [EachTextOfFields]
  | cons entry rest ih => simp [EachTextOfFields, ih]

theorem EachTextOfFields.get? {fields : Fields Value} {name : String} {v : Value}
    (h : EachTextOfFields P fields) (hv : Fields.get? fields name = some v) : v.EachText P :=
  eachTextOfFields_iff.1 h _ (Fields.mem_of_get? hv)

theorem EachText.child? {v w : Value} {segment : Segment} (h : v.EachText P)
    (hw : v.child? segment = some w) : w.EachText P := by
  cases v with
  | object fields =>
    cases segment with
    | key key => exact EachTextOfFields.get? h hw
    | index index => cases hw
  | array items =>
    rw [child?_array] at hw
    obtain ⟨i, _, hget⟩ := Option.bind_eq_some_iff.1 hw
    exact eachTextOfItems_iff.1 h w (List.mem_of_getElem? hget)
  | _ => cases segment <;> cases hw

theorem EachText.lookup {v w : Value} {path : Path} (h : v.EachText P)
    (hw : v.lookup path = some w) : w.EachText P := by
  induction path generalizing v with
  | nil => exact Option.some.inj hw ▸ h
  | cons segment rest ih =>
    obtain ⟨child, hc, hw⟩ := Option.bind_eq_some_iff.1 hw
    exact ih (h.child? hc) hw

end Value

namespace Item

open Value

variable {P : String → Prop} {item : Value}

mutual

theorem eachText_substitute (hi : item.EachText P) :
    ∀ template : Value, template.EachText P → (substitute item template).EachText P
  | .string text, h => by
    rw [substitute]
    cases hr : resolve? (.string text) item with
    | none => exact h
    | some v =>
      obtain ⟨path, _, hv⟩ := Option.bind_eq_some_iff.1 hr
      exact hi.lookup hv
  | .array items, h => by
    rw [substitute]
    exact eachText_substituteItems hi items h
  | .object fields, h => by
    rw [substitute]
    exact eachText_substituteFields hi fields h
  | .null, _ | .bool _, _ | .number _, _ | .bigInt _, _ | .date _, _ | .bytes _, _
  | .handle _, _ => by simp [substitute, EachText]

theorem eachText_substituteItems (hi : item.EachText P) :
    ∀ items : List Value, EachTextOfItems P items → EachTextOfItems P (substituteItems item items)
  | [], _ => trivial
  | v :: rest, h => ⟨eachText_substitute hi v h.1, eachText_substituteItems hi rest h.2⟩

theorem eachText_substituteFields (hi : item.EachText P) :
    ∀ fields : List (String × Value), EachTextOfFields P fields →
      EachTextOfFields P (substituteFields item fields)
  | [], _ => trivial
  | (_, v) :: rest, h => ⟨eachText_substitute hi v h.1, eachText_substituteFields hi rest h.2⟩

end

end Item

end Playbook
