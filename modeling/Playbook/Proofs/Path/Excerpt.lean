import Playbook.Proofs.Path.Frame
import Playbook.Proofs.Path.ReadBack
import Playbook.Proofs.Path.Shape
import Playbook.Proofs.Value.Excerpt

/-!
# Writing into an excerpt

What a path leads to in a whole can be written at that path into an excerpt of the whole. The main
statement: where the write succeeds, what was there is an excerpt of what it leaves, that is an
excerpt of the whole again, and the path leads to a value that agrees with the one written.
-/

namespace Playbook.Value

/-- The value has children of its own. -/
def IsContainer (v : Value) : Prop :=
  v.shape = .object ∨ v.shape = .array

theorem IsContainer.cases {v : Value} (h : v.IsContainer) :
    (∃ fields, v = .object fields) ∨ ∃ items, v = .array items := by
  cases v with
  | object fields => exact .inl ⟨fields, rfl⟩
  | array items => exact .inr ⟨items, rfl⟩
  | _ => simp [IsContainer, shape] at h

theorem IsContainer.standsFor {v v' w : Value} (h : v.IsContainer) (hs : v'.shape = v.shape)
    (hw : v.StandsFor w) : v'.StandsFor w := by
  obtain ⟨fields, rfl⟩ | ⟨items, rfl⟩ := h.cases
  · cases v' <;> simp_all [shape, StandsFor]
  · cases v' <;> simp_all [shape, StandsFor]

/-! ## Hops of containers -/

theorem IsContainer.hop_cases {v : Value} {segment : Segment} (h : v.IsContainer)
    (hl : (v.hop segment).Leads) :
    (∃ fields key, v = .object fields ∧ segment = .key key ∧ v.hop segment = .field fields key) ∨
    ∃ items index, v = .array items ∧ itemOf? segment = some index ∧
      v.hop segment = .item (padded items index) index := by
  rcases hl.cases with ⟨key, hk, ha, hf⟩ | ⟨index, hi, ho, hh⟩
  · obtain ⟨fields, rfl⟩ | ⟨items, rfl⟩ := h.cases
    · exact .inl ⟨fields, key, rfl, hk, hf⟩
    · exact absurd rfl ha
  · obtain ⟨fields, rfl⟩ | ⟨items, rfl⟩ := h.cases
    · exact absurd rfl ho
    · exact .inr ⟨items, index, rfl, hi, hh⟩

theorem slot_eq_null {v : Value} {segment : Segment} (h : v.IsContainer)
    (hl : (v.hop segment).Leads) (hn : v.child? segment = none) : (v.hop segment).slot = .null := by
  rcases h.hop_cases hl with ⟨fields, key, rfl, rfl, hf⟩ | ⟨items, index, rfl, hi, hh⟩
  · have hg : Fields.get? fields key = none := hn
    simp [hf, Hop.slot, fieldSlot, hg]
  · have hg : items[index]? = none := by simpa [child?_array, hi] using hn
    rw [hh, Hop.slot, itemSlot_padded]
    simp [itemSlot, hg]

theorem shape_fill {v : Value} {segment : Segment} (child : Value) (h : v.IsContainer)
    (hl : (v.hop segment).Leads) : ((v.hop segment).fill child).shape = v.shape := by
  rcases h.hop_cases hl with ⟨fields, key, rfl, _, hf⟩ | ⟨items, index, rfl, _, hh⟩
  · simp [hf, Hop.fill, shape]
  · simp [hh, Hop.fill, shape]

/-- A child of a container whose slot was filled fills the slot, or was there before, or is a null
that fills up a list before the slot. -/
theorem child?_fill_cases {v child w : Value} {a b : Segment} (h : v.IsContainer)
    (hl : (v.hop a).Leads) (hb : ((v.hop a).fill child).child? b = some w) :
    (v.place? a = v.place? b ∧ w = child) ∨ v.child? b = some w ∨
    (w = .null ∧ ∃ index i, v.shape = .array ∧ itemOf? a = some index ∧ itemOf? b = some i ∧
      i < index) := by
  rcases h.hop_cases hl with ⟨fields, key, rfl, rfl, hf⟩ | ⟨items, index, rfl, hi, hh⟩
  · rw [hf] at hb
    cases b with
    | index i => cases hb
    | key other =>
      have hput : Fields.get? (Fields.put fields key child) other = some w := hb
      by_cases hk : other = key
      · subst hk
        rw [Fields.get?_put_same] at hput
        exact .inl ⟨rfl, (Option.some.inj hput).symm⟩
      · rw [Fields.get?_put_of_ne fields child hk] at hput
        exact .inr (.inl hput)
  · rw [hh, Hop.fill, child?_array] at hb
    obtain ⟨i, hbi, hget⟩ := Option.bind_eq_some_iff.1 hb
    by_cases hij : index = i
    · subst hij
      rw [List.getElem?_set_self (lt_length_padded items index)] at hget
      exact .inl ⟨by simp [place?, hi, hbi], (Option.some.inj hget).symm⟩
    rw [List.getElem?_set_ne hij] at hget
    -- The item was there, or is a null that fills the list up to the new one.
    rcases getElem?_padded_cases hget with hitem | ⟨rfl, hle⟩
    · exact .inr (.inl (by simpa [child?_array, hbi] using hitem))
    · exact .inr (.inr ⟨rfl, index, i, rfl, hi, hbi, by omega⟩)

/-! ## One hop into an excerpt -/

/-- A hop that leads on in the whole goes from an excerpt of it as from a container between the two:
an empty one where the excerpt is null, and the excerpt itself elsewhere. -/
theorem ExcerptOf.container {part whole child : Value} {segment : Segment}
    (h : part.ExcerptOf whole) (hc : whole.child? segment = some child) :
    ∃ base : Value, base.IsContainer ∧ part.ExcerptOf base ∧ base.ExcerptOf whole ∧
      part.hop segment = base.hop segment := by
  rcases h.cases hc with rfl | ⟨fields, rfl⟩ | ⟨items, rfl⟩
  · cases segment with
    -- The excerpt is null: the hop enters an empty container of the shape that the whole has.
    | key key =>
      refine ⟨.object [], .inl rfl, excerptOf_null _, ?_, rfl⟩
      refine excerptOf_of_children (shape_of_child? hc) fun hop _ hnone => ?_
      cases hop <;> cases hnone
    | index index =>
      have hwhole : whole.shape = .array := by
        cases whole with
        | array items => rfl
        | _ => cases hc
      refine ⟨.array [], .inr rfl, excerptOf_null _, ?_, rfl⟩
      refine excerptOf_of_children hwhole fun hop _ hnone => ?_
      simp [child?_array] at hnone
  · exact ⟨_, .inl rfl, excerptOf_refl _, h, rfl⟩
  · exact ⟨_, .inr rfl, excerptOf_refl _, h, rfl⟩

/-- Hops that name one child of a container lead to one child of what it is an excerpt of. -/
theorem ExcerptOf.child?_congr {base whole : Value} {a b : Segment} (h : base.ExcerptOf whole)
    (hb : base.IsContainer) (hl : (base.hop a).Leads) (hp : base.place? a = base.place? b) :
    whole.child? a = whole.child? b := by
  rcases hb.hop_cases hl with ⟨fields, key, rfl, rfl, _⟩ | ⟨items, index, rfl, hi, _⟩
  · cases b <;> simp_all [place?]
  · have hwhole : whole.shape = .array := h.standsFor
    cases whole with
    | array all =>
      have hitem : itemOf? b = some index := by
        cases hj : itemOf? b <;> simp_all [place?]
      simp [child?_array, hi, hitem]
    | _ => cases hwhole

theorem excerptOf_slot {base whole child : Value} {segment : Segment} (hb : base.IsContainer)
    (h : base.ExcerptOf whole) (hc : whole.child? segment = some child)
    (hl : (base.hop segment).Leads) : (base.hop segment).slot.ExcerptOf child := by
  cases hslot : base.child? segment with
  | some held =>
    obtain ⟨child', hc', hex⟩ := h.child? hslot
    obtain rfl : child = child' := Option.some.inj (hc.symm.trans hc')
    rw [(hop_of_child? hslot).2]
    exact hex
  | none =>
    rw [slot_eq_null hb hl hslot]
    exact excerptOf_null child

/-- The slot that a hop into an excerpt leads to is an excerpt of what it leads to in the whole. -/
theorem ExcerptOf.slot {part whole child : Value} {segment : Segment} (h : part.ExcerptOf whole)
    (hc : whole.child? segment = some child) (hl : (part.hop segment).Leads) :
    (part.hop segment).slot.ExcerptOf child := by
  obtain ⟨base, hb, _, hbase, hhop⟩ := h.container hc
  rw [hhop] at hl ⊢
  exact excerptOf_slot hb hbase hc hl

/-- Where a slot is filled with what it is an excerpt of, the container is an excerpt of what it
becomes. -/
theorem excerptOf_fill {base child : Value} {segment : Segment} (hb : base.IsContainer)
    (hl : (base.hop segment).Leads) (hslot : (base.hop segment).slot.ExcerptOf child) :
    base.ExcerptOf ((base.hop segment).fill child) := by
  refine excerptOf_of_children ?_ fun other held hheld => ?_
  · obtain ⟨fields, rfl⟩ | ⟨items, rfl⟩ := hb.cases
    · exact .inl (shape_fill child hb hl)
    · exact shape_fill child hb hl
  -- The child that is read fills the slot, or the slot is beside it.
  · by_cases hp : base.place? segment = base.place? other
    · have hsegment : base.child? segment = some held := (child?_congr hp).trans hheld
      rw [(hop_of_child? hsegment).2] at hslot
      exact ⟨child, child?_fill_of_place?_eq child hsegment hp, hslot⟩
    · exact ⟨held, child?_fill_of_place?_ne child hl hp hheld, excerptOf_refl held⟩

/-- Where a slot is filled with an excerpt of the child that the hop leads to in the whole, the
container stays an excerpt of the whole. -/
theorem fill_excerptOf {base whole child child' : Value} {segment : Segment}
    (hb : base.IsContainer) (h : base.ExcerptOf whole) (hc : whole.child? segment = some child)
    (hl : (base.hop segment).Leads) (hchild : child'.ExcerptOf child) :
    ((base.hop segment).fill child').ExcerptOf whole := by
  refine excerptOf_of_children (hb.standsFor (shape_fill child' hb hl) h.standsFor)
    fun other held hheld => ?_
  rcases child?_fill_cases hb hl hheld with ⟨hp, rfl⟩ | hold | ⟨rfl, index, i, ha, hi, hj, hlt⟩
  · -- The hops name one child of the container, and so of the whole.
    exact ⟨child, (h.child?_congr hb hl hp).symm.trans hc, hchild⟩
  · exact h.child? hold
  · obtain ⟨fields, rfl⟩ | ⟨items, rfl⟩ := hb.cases
    · cases ha
    have hwhole : whole.shape = .array := h.standsFor
    cases whole with
    | array all =>
      -- A null before the slot stands for an item of the whole, as the whole reaches beyond it.
      have hget : all[index]? = some child := by simpa [child?_array, hi] using hc
      have hlength : index < all.length := (List.getElem?_eq_some_iff.1 hget).1
      refine ⟨all[i], ?_, excerptOf_null _⟩
      simp [child?_array, hj, Nat.lt_trans hlt hlength]
    | _ => cases hwhole

/-! ## Writes -/

/-- What a path leads to in a well-formed whole, written into an excerpt of the whole. -/
theorem write_excerptOf {part part' whole v old : Value} {path : Path} (hw : whole.WellFormed)
    (h : part.ExcerptOf whole) (hv : whole.lookup path = some v)
    (hwrite : write (·.merge v) path part = (.ok old, part')) :
    part.ExcerptOf part' ∧ part'.ExcerptOf whole ∧
      ∃ w, part'.lookup path = some w ∧ w.Agrees v := by
  induction path generalizing part part' whole with
  | nil =>
    obtain rfl : whole = v := Option.some.inj hv
    obtain ⟨_, rfl⟩ := Prod.mk.inj hwrite
    have hagrees := agrees_merge hw h
    exact ⟨h.trans hagrees.2, hagrees.1, _, rfl, hagrees⟩
  | cons segment rest ih =>
    obtain ⟨child, hc, hv⟩ := Option.bind_eq_some_iff.1 hv
    obtain ⟨hl, child', hrest, rfl⟩ := write_cons_ok hwrite
    -- The write enters a container between the excerpt and the whole, and the slot there is an
    -- excerpt of the child.
    obtain ⟨base, hb, hpart, hbase, hhop⟩ := h.container hc
    rw [hhop] at hl hrest ⊢
    obtain ⟨hslot, hchild, w, hread, hagrees⟩ :=
      ih (wellFormed_child? hw hc) (excerptOf_slot hb hbase hc hl) hv hrest
    refine ⟨hpart.trans (excerptOf_fill hb hl hslot), fill_excerptOf hb hbase hc hl hchild, w, ?_,
      hagrees⟩
    simpa [lookup, child?_fill child' hl] using hread

end Playbook.Value
