import Playbook.Value.Basic

/-!
# Places in a value

A value is a leaf, or a container with parts: a list of some length, or an object with some names. A
place is given by a position for each step inwards, the fields of an object counted in their order,
so that it means the same in all values with the same containers. What holds of a value when it
holds of its parts, holds of every value.
-/

namespace Playbook.Value

variable {v w : Value} {place : List Nat}

/-- A container apart from its parts. -/
inductive Container where
  | list (length : Nat)
  | object (names : List String)
  deriving DecidableEq

def Container.size : Container → Nat
  | .list length => length
  | .object names => names.length

/-- The container that a value is; a leaf is none. -/
def container? : Value → Option Container
  | .array items => some (.list items.length)
  | .object fields => some (.object (Fields.names fields))
  | _ => none

/-- The values right inside a value, in their order. -/
def parts : Value → List Value
  | .array items => items
  | .object fields => fields.map Prod.snd
  | _ => []

/-- What stands at a place. -/
def part? (v : Value) : List Nat → Option Value
  | [] => some v
  | position :: rest => v.parts[position]?.bind fun w => w.part? rest

theorem part?_cons (v : Value) (position : Nat) (rest : List Nat) :
    v.part? (position :: rest) = v.parts[position]?.bind fun w => w.part? rest := rfl

theorem parts_of_leaf (h : v.container? = none) : v.parts = [] := by
  cases v with
  | array items => cases h
  | object fields => cases h
  | _ => rfl

/-- No place leads into a leaf. -/
theorem part?_cons_of_leaf (h : v.container? = none) (position : Nat) (rest : List Nat) :
    v.part? (position :: rest) = none := by
  rw [part?_cons, parts_of_leaf h]
  rfl

theorem length_parts {c : Container} (h : v.container? = some c) : v.parts.length = c.size := by
  cases v with
  | array items =>
    obtain rfl := Option.some.inj h
    rfl
  | object fields =>
    obtain rfl := Option.some.inj h
    rw [parts, Container.size, Fields.names, List.length_map, List.length_map]
  | _ => cases h

/-- A container is known by its parts. -/
theorem eq_of_parts {c : Container} (hv : v.container? = some c) (hw : w.container? = some c)
    (h : v.parts = w.parts) : v = w := by
  have hc := hv.trans hw.symm
  cases v with
  | array items =>
    cases w with
    | array others => exact congrArg array h
    | _ => cases hc
  | object fields =>
    cases w with
    | object others =>
      have hnames : Fields.names fields = Fields.names others := by simpa [container?] using hc
      -- Fields are their names and their values, side by side.
      have hzip := List.zip_of_prod hnames h
      exact congrArg object (hzip.trans (List.zip_of_prod rfl rfl).symm)
    | _ => cases hc
  | _ => cases hv

mutual

/-- What holds of every value whose parts it holds of, holds of every value. -/
theorem parts_induction {P : Value → Prop} (step : ∀ v, (∀ w ∈ v.parts, P w) → P v) : ∀ v, P v
  | .array items => step _ (parts_induction_items step items)
  | .object fields => step _ (parts_induction_fields step fields)
  | .null | .bool _ | .number _ | .bigInt _ | .date _ | .string _ | .bytes _ | .handle _ =>
    step _ nofun

theorem parts_induction_items {P : Value → Prop} (step : ∀ v, (∀ w ∈ v.parts, P w) → P v) :
    ∀ items : List Value, ∀ w ∈ items, P w
  | v :: rest, w, hw =>
    (List.mem_cons.1 hw).elim (fun he => he ▸ parts_induction step v)
      (parts_induction_items step rest w)

theorem parts_induction_fields {P : Value → Prop} (step : ∀ v, (∀ w ∈ v.parts, P w) → P v) :
    ∀ fields : List (String × Value), ∀ w ∈ fields.map Prod.snd, P w
  | (_, v) :: rest, w, hw =>
    (List.mem_cons.1 hw).elim (fun he => he ▸ parts_induction step v)
      (parts_induction_fields step rest w)

end

end Playbook.Value
