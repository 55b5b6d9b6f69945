import Playbook.Path.Slot

/-!
# One hop of a write

A hop that leads on has a slot, and a way to fill the slot with another value. The laws here say
what the slot held, what is read after it is filled, and which neighbours of the slot stay as they
were. What a whole walk does follows from them by induction on the path.
-/

namespace Playbook.Value

/-! ## Slots -/

/-- The value that a hop leads to; for a stuck one, the value that is left. -/
def Hop.slot : Hop → Value
  | .field fields key => fieldSlot fields key
  | .item items index => itemSlot items index
  | .stuck _ left => left

/-- The container of a hop with another value in the slot. -/
def Hop.fill (hop : Hop) (child : Value) : Value :=
  match hop with
  | .field fields key => .object (Fields.put fields key child)
  | .item items index => .array (items.set index child)
  | .stuck _ left => left

/-- The hop is not stuck. -/
def Hop.Leads : Hop → Prop
  | .field _ _ | .item _ _ => True
  | .stuck _ _ => False

theorem Hop.leads_or_stuck (hop : Hop) :
    hop.Leads ∨ ∃ reason left, hop = .stuck reason left := by
  cases hop with
  | field fields key => exact .inl trivial
  | item items index => exact .inl trivial
  | stuck reason left => exact .inr ⟨reason, left, rfl⟩

theorem write_of_leads {v : Value} {segment : Segment} (f : Value → Value) (rest : Path)
    (h : (v.hop segment).Leads) :
    write f (segment :: rest) v =
      ((write f rest (v.hop segment).slot).1,
        (v.hop segment).fill (write f rest (v.hop segment).slot).2) := by
  rw [write]
  cases hv : v.hop segment with
  | field fields key => rfl
  | item items index => rfl
  | stuck reason left => simp [hv, Hop.Leads] at h

theorem write_of_stuck {v left : Value} {segment : Segment} {reason : SlotError}
    (f : Value → Value) (rest : Path) (h : v.hop segment = .stuck reason left) :
    write f (segment :: rest) v = (.error reason, left) := by
  rw [write, h]

/-! ## Lists that are filled up -/

/-- The items with nulls up to an index. -/
def padded (items : List Value) (index : Nat) : List Value :=
  items ++ List.replicate (index + 1 - items.length) .null

theorem lt_length_padded (items : List Value) (index : Nat) : index < (padded items index).length := by
  simp only [padded, List.length_append, List.length_replicate]
  omega

theorem padded_of_lt {items : List Value} {index : Nat} (h : index < items.length) :
    padded items index = items := by
  have hz : index + 1 - items.length = 0 := by omega
  simp [padded, hz]

/-- What a filled list holds: its slots up to the index, and what was there beyond it. -/
theorem getElem?_padded_eq (items : List Value) (index i : Nat) :
    (padded items index)[i]? = if i ≤ index then some (itemSlot items i) else items[i]? := by
  by_cases hlt : i < items.length
  · rw [padded, List.getElem?_append_left hlt]
    simp [itemSlot, hlt]
  · have hle : items.length ≤ i := by omega
    -- Beyond the items both sides count from the end of the list.
    have hfill : i - items.length < index + 1 - items.length ↔ i ≤ index := by omega
    rw [padded, List.getElem?_append_right hle, List.getElem?_replicate]
    simp [itemSlot, List.getElem?_eq_none hle, hfill]

theorem getElem?_padded {items : List Value} {i : Nat} {w : Value} (index : Nat)
    (h : items[i]? = some w) : (padded items index)[i]? = some w := by
  simp [getElem?_padded_eq, itemSlot, h]

/-- What a filled list holds was there before, or is one of the nulls. -/
theorem getElem?_padded_cases {items : List Value} {index i : Nat} {w : Value}
    (h : (padded items index)[i]? = some w) : items[i]? = some w ∨ w = .null ∧ i ≤ index := by
  rw [getElem?_padded_eq] at h
  split at h
  · rename_i hle
    obtain rfl := Option.some.inj h
    cases hitem : items[i]? with
    | some held => exact .inl (by simp [itemSlot, hitem])
    | none => exact .inr ⟨by simp [itemSlot, hitem], hle⟩
  · exact .inl h

theorem itemSlot_padded (items : List Value) (index : Nat) :
    itemSlot (padded items index) index = itemSlot items index := by
  rw [itemSlot, getElem?_padded_eq, if_pos (Nat.le_refl index)]
  rfl

/-- A hop to an item leads on exactly within the limit of the padding. -/
theorem hopToItem_eq (items : List Value) (index : Nat) :
    hopToItem items index =
      if index < items.length + maxPadding then .item (padded items index) index
      else .stuck (.beyondPadding index items.length) (.array items) := by
  unfold hopToItem
  by_cases h : index < items.length
  · have hl : index < items.length + maxPadding := by omega
    simp [h, hl, padded_of_lt h]
  · simp [h, padded]

/-! ## What a hop can do -/

/-- The place in a list that a hop names. -/
def itemOf? : Segment → Option Nat
  | .key key => itemKey? key
  | .index index => some index

/-- The items that an item hop finds or makes. -/
def itemsForIndex : Value → List Value
  | .array items => items
  | _ => []

theorem child?_array (items : List Value) (segment : Segment) :
    (array items).child? segment = (itemOf? segment).bind fun i => items[i]? := by
  cases segment <;> rfl

/-- A hop goes to a field of what is no list, to an item of what is no object, or stays stuck before
it changes anything. -/
theorem hop_cases (v : Value) (segment : Segment) :
    (∃ key, segment = .key key ∧ v.shape ≠ .array ∧ v.hop segment = .field v.fieldsForKey key) ∨
    (∃ index, itemOf? segment = some index ∧ v.shape ≠ .object ∧
      v.hop segment = hopToItem v.itemsForIndex index) ∨
    (∃ reason, v.hop segment = .stuck reason v) := by
  cases segment with
  | key key =>
    cases v with
    | array items =>
      cases hk : itemKey? key with
      -- A key that spells no index cannot go into a list.
      | none => exact .inr (.inr ⟨.keyIntoList key, by simp [hop, hk]⟩)
      | some index => exact .inr (.inl ⟨index, hk, by simp [shape], by simp [hop, hk, itemsForIndex]⟩)
    | _ => exact .inl ⟨key, rfl, by simp [shape], rfl⟩
  | index index =>
    cases v with
    | object fields => exact .inr (.inr ⟨.indexIntoObject index, rfl⟩)
    | _ => exact .inr (.inl ⟨index, rfl, by simp [shape], rfl⟩)

/-- A hop that leads on goes to a field, or to an item of a list that was filled up to it. -/
theorem Hop.Leads.cases {v : Value} {segment : Segment} (hl : (v.hop segment).Leads) :
    (∃ key, segment = .key key ∧ v.shape ≠ .array ∧ v.hop segment = .field v.fieldsForKey key) ∨
    (∃ index, itemOf? segment = some index ∧ v.shape ≠ .object ∧
      v.hop segment = .item (padded v.itemsForIndex index) index) := by
  rcases hop_cases v segment with hf | ⟨index, hi, ho, hh⟩ | ⟨reason, hs⟩
  · exact .inl hf
  · refine .inr ⟨index, hi, ho, ?_⟩
    rw [hh, hopToItem_eq] at hl ⊢
    split at hl
    · rename_i hb
      rw [if_pos hb]
    · exact hl.elim
  · rw [hs] at hl
    exact hl.elim

/-- A stuck hop leaves the value, or an empty list in place of a value that has no children. -/
theorem left_of_stuck {v left : Value} {segment : Segment} {reason : SlotError}
    (h : v.hop segment = .stuck reason left) :
    left = v ∨ left = .array [] ∧ v.shape ≠ .array ∧ v.shape ≠ .object := by
  rcases hop_cases v segment with ⟨key, _, _, hf⟩ | ⟨index, _, ho, hi⟩ | ⟨reason', hs⟩
  · rw [hf] at h
    cases h
  · rw [hi, hopToItem_eq] at h
    split at h
    · cases h
    -- The index is beyond the padding: a list stays, and anything else has become an empty one.
    · obtain ⟨_, rfl⟩ := Hop.stuck.inj h
      cases v with
      | array items => exact .inl rfl
      | object fields => exact absurd rfl ho
      | _ => exact .inr ⟨rfl, by simp [shape], by simp [shape]⟩
  · rw [hs] at h
    exact .inl (Hop.stuck.inj h).2.symm

/-- An index within the limit leads to an item of what is no object. -/
theorem hop_index {v : Value} {index : Nat} (ho : v.shape ≠ .object)
    (hlt : index < v.itemsForIndex.length + maxPadding) :
    v.hop (.index index) = .item (padded v.itemsForIndex index) index := by
  have hhop : v.hop (.index index) = hopToItem v.itemsForIndex index := by
    cases v with
    | object fields => exact absurd rfl ho
    | _ => rfl
  simp [hhop, hopToItem_eq, hlt]

/-- A key leads to a field of what is no list. -/
theorem hop_key {v : Value} (key : String) (ha : v.shape ≠ .array) :
    v.hop (.key key) = .field v.fieldsForKey key := by
  cases v with
  | array items => exact absurd rfl ha
  | _ => rfl

/-- A hop to an item that a list has leads there. -/
theorem hop_item {items : List Value} {segment : Segment} {index : Nat}
    (hi : itemOf? segment = some index) (hlt : index < items.length) :
    (array items).hop segment = .item items index := by
  cases segment with
  | key key =>
    have hk : itemKey? key = some index := hi
    simp [hop, hk, hopToItem, hlt]
  | index i =>
    obtain rfl : i = index := Option.some.inj hi
    simp [hop, hopToItem, hlt]

/-! ## Reading around a hop -/

/-- A child that can be read can be hopped to, and the slot holds it. -/
theorem hop_of_child? {v child : Value} {segment : Segment} (h : v.child? segment = some child) :
    (v.hop segment).Leads ∧ (v.hop segment).slot = child := by
  cases v with
  | object fields =>
    cases segment with
    | key key =>
      have hg : Fields.get? fields key = some child := h
      exact ⟨trivial, by simp [hop, Hop.slot, fieldsForKey, fieldSlot, hg]⟩
    | index index => simp [child?] at h
  | array items =>
    rw [child?_array] at h
    obtain ⟨i, hi, hget⟩ := Option.bind_eq_some_iff.1 h
    have hlt : i < items.length := (List.getElem?_eq_some_iff.1 hget).1
    -- The item is there, so that nothing is filled up.
    rw [hop_item hi hlt]
    exact ⟨trivial, by simp [Hop.slot, itemSlot, hget]⟩
  | _ => cases segment <;> simp [child?] at h

theorem exists_text_of_field {h : ContractHandle} {key : String} {v : Value}
    (hv : Fields.get? h.fields key = some v) : ∃ text, v = .string text := by
  obtain ⟨contract, address⟩ := h
  simp only [ContractHandle.fields, Fields.get?] at hv
  split at hv
  · exact ⟨contract, (Option.some.inj hv).symm⟩
  · cases address with
    | none => cases hv
    | some address =>
      simp only [Fields.get?] at hv
      split at hv
      · exact ⟨address, (Option.some.inj hv).symm⟩
      · cases hv

/-- A slot that could not be read is null, or a text field of a handle. -/
theorem slot_of_child?_eq_none {v : Value} {segment : Segment} (hl : (v.hop segment).Leads)
    (hn : v.child? segment = none) :
    (v.hop segment).slot = .null ∨ ∃ text, (v.hop segment).slot = .string text := by
  rcases hl.cases with ⟨key, rfl, _, hf⟩ | ⟨index, hi, _, hh⟩
  · rw [hf]
    cases v with
    | object fields =>
      have hg : Fields.get? fields key = none := hn
      exact .inl (by simp [Hop.slot, fieldSlot, fieldsForKey, hg])
    | handle h =>
      -- A handle has no children to read, but a write opens it, and its fields fill the slots.
      cases hg : Fields.get? h.fields key with
      | none => exact .inl (by simp [Hop.slot, fieldSlot, fieldsForKey, hg])
      | some w =>
        have hslot : (Hop.field (handle h).fieldsForKey key).slot = w := by
          simp [Hop.slot, fieldSlot, fieldsForKey, hg]
        rw [hslot]
        exact .inr (exists_text_of_field hg)
    | _ => exact .inl rfl
  · left
    rw [hh, Hop.slot, itemSlot_padded]
    cases v with
    | array items =>
      have hg : items[index]? = none := by simpa [child?_array, hi] using hn
      simp [itemSlot, itemsForIndex, hg]
    | _ => simp [itemSlot, itemsForIndex]

/-- To fill a slot with what it holds changes nothing. -/
theorem fill_child {v child : Value} {segment : Segment} (h : v.child? segment = some child) :
    (v.hop segment).fill child = v := by
  obtain ⟨hl, _⟩ := hop_of_child? h
  rcases hl.cases with ⟨key, rfl, ha, hf⟩ | ⟨index, hi, ho, hh⟩
  · rw [hf]
    cases v with
    | object fields => exact congrArg object (Fields.put_of_get? h)
    | array items => exact absurd rfl ha
    | _ => cases h
  · rw [hh]
    cases v with
    | object fields => exact absurd rfl ho
    | array items =>
      have hget : items[index]? = some child := by simpa [child?_array, hi] using h
      obtain ⟨hlt, hitem⟩ := List.getElem?_eq_some_iff.1 hget
      simp [Hop.fill, itemsForIndex, padded_of_lt hlt, ← hitem]
    | _ => cases segment <;> cases h

theorem child?_fill {v : Value} {segment : Segment} (child : Value)
    (hl : (v.hop segment).Leads) : ((v.hop segment).fill child).child? segment = some child := by
  rcases hl.cases with ⟨key, rfl, _, hf⟩ | ⟨index, hi, _, hh⟩
  · rw [hf]
    exact Fields.get?_put_same _ key child
  · rw [hh, Hop.fill, child?_array, hi]
    exact List.getElem?_set_self (lt_length_padded _ _)

end Playbook.Value
