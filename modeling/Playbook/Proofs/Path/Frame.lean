import Playbook.Proofs.Path.Hop

/-!
# What a write leaves alone

Two paths part at a value when their hops name different children of it, or the same child at which
they part. A field is named by its key; an item by its index or by a key that spells it. The main
statement: what can be read at a path that parts from the path of a write is read there after the
write, whether the write succeeds or fails.
-/

namespace Playbook.Value

/-- The name of a child. -/
inductive Place where
  | field (key : String)
  | item (index : Nat)
  deriving DecidableEq

/-- The child that a hop names, present or not; `none` when it names none. -/
def place? : Value → Segment → Option Place
  | .object _, .key key => some (.field key)
  | .array _, segment => (itemOf? segment).map .item
  | _, _ => none

/-- Two paths part into different children somewhere below a value. -/
inductive Parts : Value → Path → Path → Prop where
  | apart {v : Value} {a b : Segment} {p q : Path} (h : v.place? a ≠ v.place? b) :
      Parts v (a :: p) (b :: q)
  | deeper {v child : Value} {a b : Segment} {p q : Path} (h : v.place? a = v.place? b)
      (hc : v.child? b = some child) (hp : Parts child p q) : Parts v (a :: p) (b :: q)

theorem child?_congr {v : Value} {a b : Segment} (h : v.place? a = v.place? b) :
    v.child? a = v.child? b := by
  cases v with
  | object fields =>
    cases a <;> cases b <;> simp_all [place?, child?]
  | array items =>
    have hi : itemOf? a = itemOf? b := by
      cases ha : itemOf? a <;> cases hb : itemOf? b <;> simp_all [place?]
    rw [child?_array, child?_array, hi]
  | _ => cases a <;> cases b <;> rfl

/-- To fill a slot leaves the other children of its container alone. -/
theorem child?_fill_of_place?_ne {v w : Value} {a b : Segment} (child : Value)
    (hl : (v.hop a).Leads) (hne : v.place? a ≠ v.place? b) (hb : v.child? b = some w) :
    ((v.hop a).fill child).child? b = some w := by
  rcases hl.cases with ⟨key, rfl, ha, hf⟩ | ⟨index, hi, ho, hh⟩
  · rw [hf]
    cases v with
    | object fields =>
      cases b with
      | key other =>
        have hk : other ≠ key := fun e => hne (by rw [e])
        have hg : Fields.get? fields other = some w := hb
        show Fields.get? (Fields.put fields key child) other = some w
        rw [Fields.get?_put_of_ne fields child hk, hg]
      | index i => simp [child?] at hb
    | array items => exact absurd rfl ha
    | _ => cases b <;> simp [child?] at hb
  · cases v with
    | object fields => exact absurd rfl ho
    | array items =>
      rw [child?_array] at hb
      obtain ⟨j, hj, hget⟩ := Option.bind_eq_some_iff.1 hb
      -- The two hops name different items, whether by a key or by an index.
      have hij : index ≠ j := fun e => hne (by simp [place?, hi, hj, e])
      rw [hh, Hop.fill, child?_array, hj]
      show ((padded items index).set index child)[j]? = some w
      rw [List.getElem?_set_ne hij]
      exact getElem?_padded index hget
    | _ => cases b <;> simp [child?] at hb

/-- To fill a slot that could be read does not change what hops name. -/
theorem place?_fill {v w : Value} {a : Segment} (child : Value) (b : Segment)
    (ha : v.child? a = some w) : ((v.hop a).fill child).place? b = v.place? b := by
  have hl := (hop_of_child? ha).1
  rcases hl.cases with ⟨key, rfl, hna, hf⟩ | ⟨index, _, ho, hh⟩
  · rw [hf]
    cases v with
    | object fields => cases b <;> rfl
    | array items => exact absurd rfl hna
    | _ => simp [child?] at ha
  · rw [hh]
    cases v with
    | object fields => exact absurd rfl ho
    | array items => cases b <;> rfl
    | _ => cases a <;> simp [child?] at ha

/-- What fills a slot is read by every hop that names the slot. -/
theorem child?_fill_of_place?_eq {v w : Value} {a b : Segment} (child : Value)
    (ha : v.child? a = some w) (heq : v.place? a = v.place? b) :
    ((v.hop a).fill child).child? b = some child := by
  have hl := (hop_of_child? ha).1
  rw [← child?_fill child hl]
  apply child?_congr
  rw [place?_fill child b ha, place?_fill child a ha, heq]

theorem child?_of_stuck {v left w : Value} {a b : Segment} {reason : SlotError}
    (hs : v.hop a = .stuck reason left) (hb : v.child? b = some w) : left.child? b = some w := by
  rcases left_of_stuck hs with rfl | ⟨_, ha, ho⟩
  · exact hb
  -- What was replaced had no children to read.
  · cases v <;> cases b <;> simp_all [child?, shape]

/-- What can be read apart from the path of a write is read there after it. -/
theorem lookup_write_of_parts {f : Value → Value} {v w : Value} {p q : Path}
    (h : Parts v p q) (hq : v.lookup q = some w) : (write f p v).2.lookup q = some w := by
  induction h generalizing w with
  | @apart v a b p q hne =>
    obtain ⟨child, hb, hw⟩ := Option.bind_eq_some_iff.1 hq
    -- The first hop of the write goes to another child, or it is stuck before it goes anywhere.
    have hchild : (write f (a :: p) v).2.child? b = some child := by
      rcases (v.hop a).leads_or_stuck with hl | ⟨reason, left, hs⟩
      · rw [write_of_leads f p hl]
        exact child?_fill_of_place?_ne _ hl hne hb
      · rw [write_of_stuck f p hs]
        exact child?_of_stuck hs hb
    rw [lookup, hchild]
    exact hw
  | @deeper v child a b p q heq hc _ ih =>
    -- The write goes to the child that is read, and the paths part further down.
    have ha : v.child? a = some child := (child?_congr heq).trans hc
    obtain ⟨hl, hslot⟩ := hop_of_child? ha
    have hw : child.lookup q = some w := by simpa [lookup, hc] using hq
    have hread := child?_fill_of_place?_eq (write f p child).2 ha heq
    rw [write_of_leads f p hl, hslot, lookup, hread]
    exact ih hw

/-! ## One write after another -/

/-- A write below a value that has children does not change what hops name. -/
theorem place?_write_cons {f : Value → Value} {v w : Value} {b : Segment} (a : Segment) (p : Path)
    (hb : v.child? b = some w) (hop : Segment) :
    (write f (a :: p) v).2.place? hop = v.place? hop := by
  rcases (v.hop a).leads_or_stuck with hl | ⟨reason, left, hs⟩
  · rw [write_of_leads f p hl]
    rcases hl.cases with ⟨key, _, ha, hf⟩ | ⟨index, _, ho, hi⟩
    · rw [hf]
      cases v with
      | object fields => cases hop <;> rfl
      | array items => exact absurd rfl ha
      | _ => cases b <;> cases hb
    · rw [hi]
      cases v with
      | object fields => exact absurd rfl ho
      | array items => cases hop <;> rfl
      | _ => cases b <;> cases hb
  · rw [write_of_stuck f p hs]
    -- A value with children is not replaced by a hop that is stuck.
    rcases left_of_stuck hs with rfl | ⟨_, ha, ho⟩
    · rfl
    · cases v with
      | object fields => exact absurd rfl ho
      | array items => exact absurd rfl ha
      | _ => cases b <;> cases hb

/-- A write that parts from what is read leaves any other path parting from it. -/
theorem parts_write {f : Value → Value} {v w : Value} {p p' q : Path} (h : Parts v p q)
    (h' : Parts v p' q) (hq : v.lookup q = some w) : Parts (write f p v).2 p' q := by
  induction h generalizing w p' with
  | @apart v a b p q hne =>
    obtain ⟨child, hb, _⟩ := Option.bind_eq_some_iff.1 hq
    have hplace := place?_write_cons (f := f) a p hb
    -- The write is apart from the first hop, so the child that the hop names stays.
    have hchild : (write f (a :: p) v).2.child? b = some child := by
      rcases (v.hop a).leads_or_stuck with hl | ⟨reason, left, hs⟩
      · rw [write_of_leads f p hl]
        exact child?_fill_of_place?_ne _ hl hne hb
      · rw [write_of_stuck f p hs]
        exact child?_of_stuck hs hb
    cases h' with
    | apart hne' => exact .apart (by rw [hplace, hplace]; exact hne')
    | deeper heq hc hp =>
      rw [hb] at hc
      obtain rfl := Option.some.inj hc
      exact .deeper (by rw [hplace, hplace]; exact heq) hchild hp
  | @deeper v child a b p q heq hc _ ih =>
    have ha : v.child? a = some child := (child?_congr heq).trans hc
    have hplace := place?_write_cons (f := f) a p hc
    have hw : child.lookup q = some w := by simpa [lookup, hc] using hq
    obtain ⟨hl, hslot⟩ := hop_of_child? ha
    have hread := child?_fill_of_place?_eq (write f p child).2 ha heq
    cases h' with
    | apart hne' => exact .apart (by rw [hplace, hplace]; exact hne')
    | deeper heq' hc' hp' =>
      rw [hc] at hc'
      obtain rfl := Option.some.inj hc'
      refine .deeper (by rw [hplace, hplace]; exact heq') ?_ (ih hp' hw)
      rw [write_of_leads f p hl, hslot]
      exact hread

end Playbook.Value
