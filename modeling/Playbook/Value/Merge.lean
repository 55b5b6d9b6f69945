import Playbook.Value.Basic

/-!
# Deep merge

Merging an incoming value into an existing one. Two objects merge field by field, and fields that
only the existing one has are kept; an object merges into a handle as into the handle's fields. In
every other case the incoming value takes the place of the existing one, lists included.
-/

namespace Playbook.Value

mutual

/-- Merges the second value into the first. -/
def merge (existing : Value) : Value → Value
  | .object incoming =>
    match existing.opened with
    | .object fields => .object (mergeFields fields incoming)
    | _ => .object incoming
  | incoming => incoming

/-- Merges fields into fields, one after another. -/
def mergeFields (existing : Fields Value) : List (String × Value) → Fields Value
  | [] => existing
  | (name, incoming) :: rest =>
    let entry := match Fields.get? existing name with
      | some old => merge old incoming
      | none => incoming
    mergeFields (Fields.put existing name entry) rest

end

theorem merge_of_not_isObject {incoming : Value} (existing : Value)
    (h : incoming.isObject = false) :
    merge existing incoming = incoming := by
  cases incoming <;> simp_all [merge, isObject]

theorem merge_object (fields incoming : Fields Value) :
    merge (.object fields) (.object incoming) = .object (mergeFields fields incoming) := by
  simp [merge]

@[simp] theorem merge_opened (existing : Value) (incoming : Fields Value) :
    merge existing.opened (.object incoming) = merge existing (.object incoming) := by
  simp [merge]

end Playbook.Value
