import Playbook.Proofs.Path.ReadBack

/-!
# Writes that commute

Two paths go on together and then part at hops that never lead to the same child. The main
statement: where writes at both paths succeed in either order, the trees that the two orders leave
are the same but for the order of the fields of one object, the one at which the paths part.
-/

namespace Playbook.Value

/-- The values are the same but for the order of the fields of one object in them. -/
inductive Reordered : Value → Value → Prop where
  | refl (v : Value) : Reordered v v
  | here {fields others : Fields Value} (h : List.Perm fields others) :
      Reordered (.object fields) (.object others)
  | field (fields : Fields Value) (key : String) {v w : Value} (h : Reordered v w) :
      Reordered (.object (Fields.put fields key v)) (.object (Fields.put fields key w))
  | item (items : List Value) (index : Nat) {v w : Value} (h : Reordered v w) :
      Reordered (.array (items.set index v)) (.array (items.set index w))

/-- The hops never lead to the same child: they differ, and they do not spell the same item of a
list. So do two different keys that spell no index, and two different indices. -/
structure Apart (a b : Segment) : Prop where
  ne : a ≠ b
  items : ∀ index, itemOf? a = some index → itemOf? b ≠ some index

theorem apart_keys {key other : String} (h : key ≠ other) (hk : itemKey? key = none) :
    Apart (.key key) (.key other) :=
  ⟨fun e => h (Segment.key.inj e), fun _ hi => by cases hk.symm.trans hi⟩

theorem apart_indices {i j : Nat} (h : i ≠ j) : Apart (.index i) (.index j) :=
  ⟨fun e => h (Segment.index.inj e), fun _ hi hj =>
    h ((Option.some.inj hi).trans (Option.some.inj hj).symm)⟩

/-! ## Hops in common -/

theorem Reordered.fill {v w : Value} (hop : Hop) (h : v.Reordered w) :
    (hop.fill v).Reordered (hop.fill w) := by
  cases hop with
  | field fields key => exact .field fields key h
  | item items index => exact .item items index h
  | stuck reason left => exact .refl left

/-- A slot that was filled is filled again as before. -/
theorem fill_fill {v : Value} {segment : Segment} (first second : Value)
    (hl : (v.hop segment).Leads) :
    (((v.hop segment).fill first).hop segment).fill second = (v.hop segment).fill second := by
  rcases hl.cases with ⟨key, rfl, _, hf⟩ | ⟨index, hi, _, hh⟩
  · rw [hf]
    exact congrArg object (Fields.put_put_same _ key first second)
  · have hlt : index < ((padded v.itemsForIndex index).set index first).length := by
      simpa using lt_length_padded v.itemsForIndex index
    rw [hh, Hop.fill, hop_item hi hlt]
    simp [Hop.fill]

/-! ## Filled lists -/

theorem itemSlot_padded_set {items : List Value} {i j : Nat} (v : Value) (h : i ≠ j) :
    itemSlot ((padded items i).set i v) j = itemSlot items j := by
  rw [itemSlot, List.getElem?_set_ne h, getElem?_padded_eq]
  split <;> rfl

/-- A list is filled up for two items in either order. -/
theorem padded_set_comm (items : List Value) {i j : Nat} (v w : Value) (h : i ≠ j) :
    (padded ((padded items i).set i v) j).set j w =
      (padded ((padded items j).set j w) i).set i v := by
  -- Both lists hold the same at each place: one of the two items, or what the lists are filled
  -- with.
  apply List.ext_getElem?
  intro k
  by_cases hi : i = k
  · subst hi
    rw [List.getElem?_set_ne h.symm, List.getElem?_set_self (lt_length_padded _ _)]
    exact getElem?_padded j (List.getElem?_set_self (lt_length_padded _ _))
  by_cases hj : j = k
  · subst hj
    rw [List.getElem?_set_ne h, List.getElem?_set_self (lt_length_padded _ _)]
    exact (getElem?_padded i (List.getElem?_set_self (lt_length_padded _ _))).symm
  · rw [List.getElem?_set_ne hi, List.getElem?_set_ne hj]
    rw [getElem?_padded_eq, getElem?_padded_eq, itemSlot_padded_set v hi, itemSlot_padded_set w hj]
    rw [List.getElem?_set_ne hi, List.getElem?_set_ne hj, getElem?_padded_eq, getElem?_padded_eq]
    by_cases hki : k ≤ i <;> by_cases hkj : k ≤ j <;> simp [hki, hkj]

/-! ## Hops that part -/

/-- Once a hop has gone to a field of what was no list, no hop leads to an item there. -/
theorem not_leads_beside_field {v : Value} {b : Segment} {items : List Value} {index : Nat}
    (fields : Fields Value) (ha : v.shape ≠ .array) (hb : v.hop b = .item items index) :
    ¬ ((object fields).hop b).Leads := by
  cases b with
  | key key =>
    rw [hop_key key ha] at hb
    cases hb
  | index index => exact id

/-- Hops that part and that lead on in either order go to fields of the same object, or to items of
the same list. -/
theorem Apart.cases {v c d : Value} {a b : Segment} (h : Apart a b) (ha : (v.hop a).Leads)
    (hb : (v.hop b).Leads) (hab : (((v.hop a).fill c).hop b).Leads)
    (hba : (((v.hop b).fill d).hop a).Leads) :
    (∃ fields key other, key ≠ other ∧ a = .key key ∧ b = .key other ∧
      v.hop a = .field fields key ∧ v.hop b = .field fields other) ∨
    ∃ items i j, i ≠ j ∧ itemOf? a = some i ∧ itemOf? b = some j ∧
      v.hop a = .item (padded items i) i ∧ v.hop b = .item (padded items j) j := by
  rcases ha.cases with ⟨key, rfl, hshape, hf⟩ | ⟨i, hi, _, hh⟩
  · rcases hb.cases with ⟨other, rfl, _, hf'⟩ | ⟨j, _, _, hh'⟩
    · exact .inl ⟨_, key, other, fun e => h.ne (e ▸ rfl), rfl, rfl, hf, hf'⟩
    · rw [hf] at hab
      -- After a field was made there is an object, which the index cannot enter.
      exact absurd hab (not_leads_beside_field _ hshape hh')
  · rcases hb.cases with ⟨other, rfl, hshape, hf'⟩ | ⟨j, hj, _, hh'⟩
    · rw [hf'] at hba
      exact absurd hba (not_leads_beside_field _ hshape hh)
    · exact .inr ⟨_, i, j, fun e => h.items i hi (e ▸ hj), hi, hj, hh, hh'⟩

theorem hop_of_array {items : List Value} {segment : Segment} {index : Nat}
    (hi : itemOf? segment = some index) (hl : ((array items).hop segment).Leads) :
    (array items).hop segment = .item (padded items index) index := by
  rcases hl.cases with ⟨_, _, hshape, _⟩ | ⟨other, ho, _, hh⟩
  · exact absurd rfl hshape
  · obtain rfl : index = other := Option.some.inj (hi.symm.trans ho)
    exact hh

/-- Hops that part leave the slots of each other alone, and fill them in either order, but for the
order of fields. -/
theorem Apart.fill_comm {v c d : Value} {a b : Segment} (h : Apart a b) (ha : (v.hop a).Leads)
    (hb : (v.hop b).Leads) (hab : (((v.hop a).fill c).hop b).Leads)
    (hba : (((v.hop b).fill d).hop a).Leads) :
    (((v.hop a).fill c).hop b).slot = (v.hop b).slot ∧
      (((v.hop b).fill d).hop a).slot = (v.hop a).slot ∧
      ((((v.hop a).fill c).hop b).fill d).Reordered ((((v.hop b).fill d).hop a).fill c) := by
  rcases h.cases ha hb hab hba with
    ⟨fields, key, other, hne, rfl, rfl, hf, hf'⟩ | ⟨items, i, j, hne, hi, hj, hh, hh'⟩
  · rw [hf, hf']
    refine ⟨?_, ?_, .here (Fields.put_put_perm fields c d hne)⟩
    · exact congrArg (Option.getD · .null) (Fields.get?_put_of_ne fields c hne.symm)
    · exact congrArg (Option.getD · .null) (Fields.get?_put_of_ne fields d hne)
  · rw [hh] at hab
    rw [hh'] at hba
    rw [hh, hh', Hop.fill, Hop.fill, hop_of_array hj hab, hop_of_array hi hba]
    refine ⟨?_, ?_, ?_⟩
    · simp only [Hop.slot, itemSlot_padded, itemSlot_padded_set c hne]
    · simp only [Hop.slot, itemSlot_padded, itemSlot_padded_set d hne.symm]
    · rw [Hop.fill, Hop.fill, padded_set_comm items c d hne]
      exact .refl _

/-! ## Writes -/

/-- Writes at paths that part leave the same tree in either order, but for the order of fields. -/
theorem write_write_reordered {f g : Value → Value} {a b : Segment} {p q : Path} (hab : Apart a b)
    (shared : Path) {v v₁ v₂ v₁₂ v₂₁ o₁ o₂ o₁₂ o₂₁ : Value}
    (h₁ : write f (shared ++ a :: p) v = (.ok o₁, v₁))
    (h₁₂ : write g (shared ++ b :: q) v₁ = (.ok o₁₂, v₁₂))
    (h₂ : write g (shared ++ b :: q) v = (.ok o₂, v₂))
    (h₂₁ : write f (shared ++ a :: p) v₂ = (.ok o₂₁, v₂₁)) : v₁₂.Reordered v₂₁ := by
  induction shared generalizing v v₁ v₂ v₁₂ v₂₁ with
  | nil =>
    -- The paths part here: each write finds the slot of its hop as it was, and fills it alike.
    obtain ⟨ha, c, hc, rfl⟩ := write_cons_ok h₁
    obtain ⟨hb, d, hd, rfl⟩ := write_cons_ok h₂
    obtain ⟨hab', d', hd', rfl⟩ := write_cons_ok h₁₂
    obtain ⟨hba', c', hc', rfl⟩ := write_cons_ok h₂₁
    obtain ⟨hslot, hslot', hfill⟩ := hab.fill_comm ha hb hab' hba'
    rw [hslot, hd] at hd'
    rw [hslot', hc] at hc'
    obtain ⟨_, rfl⟩ := Prod.mk.inj hd'
    obtain ⟨_, rfl⟩ := Prod.mk.inj hc'
    exact hfill
  | cons hop shared ih =>
    -- All four writes go by the same hop, and the second of each pair into what the first has made.
    obtain ⟨hl, c₁, hc₁, rfl⟩ := write_cons_ok h₁
    obtain ⟨_, c₂, hc₂, rfl⟩ := write_cons_ok h₂
    obtain ⟨_, c₁₂, hc₁₂, rfl⟩ := write_cons_ok h₁₂
    obtain ⟨_, c₂₁, hc₂₁, rfl⟩ := write_cons_ok h₂₁
    rw [(hop_of_child? (child?_fill c₁ hl)).2] at hc₁₂
    rw [(hop_of_child? (child?_fill c₂ hl)).2] at hc₂₁
    rw [fill_fill c₁ c₁₂ hl, fill_fill c₂ c₂₁ hl]
    exact (ih hc₁ hc₁₂ hc₂ hc₂₁).fill _

end Playbook.Value
