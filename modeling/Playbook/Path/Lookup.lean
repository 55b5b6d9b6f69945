import Playbook.Path.Basic
import Playbook.Value.Basic

/-!
# Reading at a path

A key leads to a field of an object; an index, or a key that spells one, to an item of a list. No
hop leads into any other value, a handle included.
-/

namespace Playbook.Value

/-- The place in a list that a key spells. -/
def itemKey? (key : String) : Option Nat :=
  Text.word? key.toList

/-- The value one hop away. -/
def child? : Value → Segment → Option Value
  | .object fields, .key key => Fields.get? fields key
  | .array items, .key key => (itemKey? key).bind fun i => items[i]?
  | .array items, .index i => items[i]?
  | _, _ => none

/-- The value at a path; `none` when a hop leads nowhere. -/
def lookup (v : Value) : Path → Option Value
  | [] => some v
  | hop :: rest => (v.child? hop).bind fun child => child.lookup rest

def select (v : Value) (path : String) : Option Value :=
  v.lookup (Path.parse path)

@[simp] theorem lookup_nil (v : Value) : v.lookup [] = some v := rfl

theorem lookup_append (v : Value) (p q : Path) :
    v.lookup (p ++ q) = (v.lookup p).bind fun w => w.lookup q := by
  induction p generalizing v with
  | nil => simp
  | cons hop p ih =>
    simp only [List.cons_append, lookup]
    cases v.child? hop <;> simp [ih]

end Playbook.Value
