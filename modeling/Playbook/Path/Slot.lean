import Playbook.Path.Lookup

/-!
# Writing at a path

A write walks to the slot at a path and makes what is missing on the way. A key makes an object of a
null or a scalar, opens a handle, and adds the field when it is new; an index makes a list of
whatever is no object, and fills the list with nulls up to its place, within a limit. A key that
spells an index leads to the item of a list. The walk fails where an index meets an object, a key
that is no index meets a list, or the place lies too far beyond the end of a list; what earlier hops
made stays.
-/

namespace Playbook

/-- The greatest number of items that one hop may add to a list. -/
def maxPadding : Nat := 1024

/-- Why a write stops on its way. -/
inductive SlotError where
  | keyIntoList (key : String)
  | indexIntoObject (index : Nat)
  | beyondPadding (index length : Nat)
  deriving DecidableEq

def SlotError.message (path : String) : SlotError → String
  | .keyIntoList key => s!"cannot write key `{key}` of `{path}` into a list"
  | .indexIntoObject index => s!"cannot write index [{index}] of `{path}` into an object"
  | .beyondPadding index length =>
    s!"index [{index}] of `{path}` is more than {maxPadding} past the end of a list of {length}"

namespace Value

/-- Where a hop of a write leads, in a container that was made ready for it. -/
inductive Hop where
  /-- To a field, present or not yet. -/
  | field (fields : Fields Value) (key : String)
  /-- To an item of a list that is long enough. -/
  | item (items : List Value) (index : Nat)
  /-- Nowhere: the reason, and the value that is left. -/
  | stuck (reason : SlotError) (left : Value)

/-- The hop to an item, filling the list up to it when it is near enough. -/
def hopToItem (items : List Value) (index : Nat) : Hop :=
  if index < items.length then .item items index
  else if index < items.length + maxPadding then
    .item (items ++ List.replicate (index + 1 - items.length) .null) index
  else .stuck (.beyondPadding index items.length) (.array items)

/-- The fields that a key hop finds or makes. -/
def fieldsForKey (v : Value) : Fields Value :=
  match v.opened with
  | .object fields => fields
  | _ => []

def hop : Value → Segment → Hop
  | .array items, .key key =>
    match itemKey? key with
    | some index => hopToItem items index
    | none => .stuck (.keyIntoList key) (.array items)
  | v, .key key => .field v.fieldsForKey key
  | .object fields, .index index => .stuck (.indexIntoObject index) (.object fields)
  | .array items, .index index => hopToItem items index
  | _, .index index => hopToItem [] index

/-- What the slot at the end of a field hop holds, a new field being null. -/
def fieldSlot (fields : Fields Value) (key : String) : Value :=
  (Fields.get? fields key).getD .null

/-- What the slot at the end of an item hop holds. -/
def itemSlot (items : List Value) (index : Nat) : Value :=
  items[index]?.getD .null

/-- Applies `f` to the slot at a path. The result is what the slot held before, or why it cannot be
reached, and the tree afterwards. -/
def write (f : Value → Value) : Path → Value → Except SlotError Value × Value
  | [], v => (.ok v, f v)
  | segment :: rest, v =>
    match v.hop segment with
    | .field fields key =>
      let (outcome, child) := write f rest (fieldSlot fields key)
      (outcome, .object (Fields.put fields key child))
    | .item items index =>
      let (outcome, child) := write f rest (itemSlot items index)
      (outcome, .array (items.set index child))
    | .stuck reason left => (.error reason, left)

@[simp] theorem write_nil (f : Value → Value) (v : Value) : write f [] v = (.ok v, f v) := rfl

end Value

end Playbook
