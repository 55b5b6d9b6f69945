import Playbook.Proofs.Path.Hop
import Playbook.Proofs.Value.WellFormed

/-!
# What a write keeps of a tree

A write of well-formed values keeps a tree well-formed, whether it succeeds or fails, and what can
be read in a well-formed tree is well-formed. A write below an object keeps the object, and appends
to its names at most.
-/

namespace Playbook.Value

/-! ## Well-formed trees -/

theorem wellFormed_child? {v w : Value} {segment : Segment} (hv : v.WellFormed)
    (h : v.child? segment = some w) : w.WellFormed := by
  cases v with
  | object fields =>
    cases segment with
    | key key => exact hv.2.get? h
    | index index => cases h
  | array items =>
    rw [child?_array] at h
    obtain ⟨i, _, hget⟩ := Option.bind_eq_some_iff.1 h
    exact itemsWellFormed_iff.1 hv w (List.mem_of_getElem? hget)
  | _ => cases segment <;> cases h

theorem wellFormed_lookup {v w : Value} {path : Path} (hv : v.WellFormed)
    (h : v.lookup path = some w) : w.WellFormed := by
  induction path generalizing v with
  | nil =>
    obtain rfl := Option.some.inj h
    exact hv
  | cons segment rest ih =>
    obtain ⟨child, hc, hw⟩ := Option.bind_eq_some_iff.1 h
    exact ih (wellFormed_child? hv hc) hw

theorem wellFormed_fieldsForKey {v : Value} (hv : v.WellFormed) :
    (object v.fieldsForKey).WellFormed := by
  have ho := wellFormed_opened hv
  rw [fieldsForKey]
  split
  · rename_i fields hf
    rw [hf] at ho
    exact ho
  · exact wellFormed_nil

theorem wellFormed_itemsForIndex {v : Value} (hv : v.WellFormed) :
    (array v.itemsForIndex).WellFormed := by
  cases v with
  | array items => exact hv
  | _ => trivial

theorem wellFormed_padded {items : List Value} (index : Nat) (h : (array items).WellFormed) :
    (array (padded items index)).WellFormed := by
  rw [WellFormed, itemsWellFormed_iff] at h ⊢
  intro v hv
  rcases List.mem_append.1 hv with hold | hnew
  · exact h v hold
  · rw [List.eq_of_mem_replicate hnew]
    trivial

theorem wellFormed_slot {v : Value} {segment : Segment} (hv : v.WellFormed)
    (hl : (v.hop segment).Leads) : (v.hop segment).slot.WellFormed := by
  rcases hl.cases with ⟨key, _, _, hf⟩ | ⟨index, _, _, hi⟩
  · rw [hf, Hop.slot, fieldSlot]
    cases hg : Fields.get? v.fieldsForKey key with
    | none => trivial
    | some w => exact (wellFormed_fieldsForKey hv).2.get? hg
  · rw [hi, Hop.slot, itemSlot]
    cases hg : (padded v.itemsForIndex index)[index]? with
    | none => trivial
    | some w =>
      have hitems := wellFormed_padded index (wellFormed_itemsForIndex hv)
      exact itemsWellFormed_iff.1 hitems w (List.mem_of_getElem? hg)

theorem wellFormed_fill {v child : Value} {segment : Segment} (hv : v.WellFormed)
    (hl : (v.hop segment).Leads) (hc : child.WellFormed) :
    ((v.hop segment).fill child).WellFormed := by
  rcases hl.cases with ⟨key, _, _, hf⟩ | ⟨index, _, _, hi⟩
  · rw [hf]
    exact wellFormed_put key (wellFormed_fieldsForKey hv) hc
  · rw [hi, Hop.fill, WellFormed, itemsWellFormed_iff]
    intro w hw
    rcases List.mem_or_eq_of_mem_set hw with hold | rfl
    · have hitems := wellFormed_padded index (wellFormed_itemsForIndex hv)
      exact itemsWellFormed_iff.1 hitems w hold
    · exact hc

/-- A write keeps a tree well-formed if the change of its slot does. -/
theorem wellFormed_write {f : Value → Value} (hf : ∀ old, old.WellFormed → (f old).WellFormed)
    {v : Value} (path : Path) (hv : v.WellFormed) : (write f path v).2.WellFormed := by
  induction path generalizing v with
  | nil => exact hf v hv
  | cons segment rest ih =>
    rcases (v.hop segment).leads_or_stuck with hl | ⟨reason, left, hs⟩
    · rw [write_of_leads f rest hl]
      exact wellFormed_fill hv hl (ih (wellFormed_slot hv hl))
    · rw [write_of_stuck f rest hs]
      rcases left_of_stuck hs with rfl | ⟨rfl, _⟩
      · exact hv
      · trivial

/-! ## The object at the root -/

/-- A write below an object puts an entry into it or leaves it as it is. -/
theorem write_cons_object (f : Value → Value) (segment : Segment) (rest : Path)
    (fields : Fields Value) :
    (∃ key child,
      (write f (segment :: rest) (object fields)).2 = .object (Fields.put fields key child)) ∨
    (write f (segment :: rest) (object fields)).2 = .object fields := by
  cases segment with
  | key key =>
    have hl : ((object fields).hop (.key key)).Leads := trivial
    rw [write_of_leads f rest hl]
    exact .inl ⟨key, _, rfl⟩
  | index index =>
    have hs : (object fields).hop (.index index) =
        .stuck (.indexIntoObject index) (.object fields) := rfl
    rw [write_of_stuck f rest hs]
    exact .inr rfl

theorem isObject_write_cons (f : Value → Value) (segment : Segment) (rest : Path) {v : Value}
    (h : v.isObject = true) : (write f (segment :: rest) v).2.isObject = true := by
  cases v with
  | object fields =>
    rcases write_cons_object f segment rest fields with ⟨key, child, hw⟩ | hw
    · rw [hw]
      rfl
    · rw [hw]
      rfl
  | _ => cases h

theorem keys_prefix_write_cons (f : Value → Value) (segment : Segment) (rest : Path) (v : Value) :
    v.keys <+: (write f (segment :: rest) v).2.keys := by
  cases v with
  | object fields =>
    rcases write_cons_object f segment rest fields with ⟨key, child, hw⟩ | hw
    · rw [hw]
      exact Fields.names_prefix_names_put fields key child
    · simp [hw]
  | _ => exact List.nil_prefix

end Playbook.Value
