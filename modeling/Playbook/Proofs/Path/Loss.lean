import Playbook.Proofs.Path.Frame
import Playbook.Proofs.Path.ReadBack

/-!
# What a failed write loses

A write makes its containers on the way, so it may fail after it has put one in the place of data.
Data are scalars and handles. The main statement says exactly when a failed write has lost some:
when its path goes on from a scalar, from a handle by an index, or below a field of a handle.
-/

namespace Playbook.Value

/-- The value is data that is no container and no handle. -/
def isScalar : Value → Bool
  | .null | .array _ | .object _ | .handle _ => false
  | _ => true

/-- What is found in place of a value still carries its data: a scalar is the same one, and a handle
is the same one or an object with all its fields. -/
def Survives : Value → Option Value → Prop
  | .null, _ | .array _, _ | .object _, _ => True
  | .handle h, found =>
    found = some (.handle h) ∨
      ∃ fields, found = some (.object fields) ∧
        ∀ name v, Fields.get? h.fields name = some v → Fields.get? fields name = some v
  | v, found => found = some v

/-- Whatever data can be read in the first value survives at the same path in the second. -/
def Keeps (old new : Value) : Prop :=
  ∀ path v, old.lookup path = some v → v.Survives (new.lookup path)

/-- A write that goes on by the hop puts a container in place of the value, or of a field of it. -/
def displaced : Value → Segment → Bool
  | .null, _ | .array _, _ | .object _, _ => false
  | .handle h, .key key => Fields.has h.fields key
  | _, _ => true

/-- A write at the path puts a container in place of data on its way. -/
def Tramples (v : Value) (path : Path) : Prop :=
  ∃ front segment rest w,
    path = front ++ segment :: rest ∧ v.lookup front = some w ∧ w.displaced segment = true

/-! ## Data that survive -/

theorem survives_self (v : Value) : v.Survives (some v) := by
  cases v with
  | handle h => exact .inl rfl
  | null | array items | object fields => trivial
  | _ => rfl

theorem eq_of_survives {v w : Value} (hv : v.isScalar = true) (h : v.Survives (some w)) : w = v := by
  cases v with
  | null | array items | object fields | handle handle => cases hv
  | _ => exact Option.some.inj h

theorem keeps_refl (v : Value) : Keeps v v := by
  intro path w hw
  rw [hw]
  exact survives_self w

theorem not_tramples_nil (v : Value) : ¬ Tramples v [] := by
  rintro ⟨front, segment, rest, w, hp, _⟩
  simp at hp

theorem tramples_cons {v : Value} {segment : Segment} {rest : Path} :
    Tramples v (segment :: rest) ↔
      v.displaced segment = true ∨ ∃ child, v.child? segment = some child ∧ Tramples child rest := by
  constructor
  · rintro ⟨front, hop, tail, w, hp, hl, hd⟩
    cases front with
    | nil =>
      obtain ⟨rfl, rfl⟩ := List.cons.inj hp
      obtain rfl : v = w := Option.some.inj hl
      exact .inl hd
    | cons first front =>
      obtain ⟨rfl, rfl⟩ := List.cons.inj hp
      obtain ⟨child, hc, hw⟩ := Option.bind_eq_some_iff.1 hl
      exact .inr ⟨child, hc, front, hop, tail, w, rfl, hw, hd⟩
  · rintro (hd | ⟨child, hc, front, hop, tail, w, rfl, hw, hd⟩)
    · exact ⟨[], segment, rest, v, rfl, rfl, hd⟩
    · refine ⟨segment :: front, hop, tail, w, rfl, ?_, hd⟩
      rw [lookup, hc]
      exact hw

/-! ## Containers that a write makes -/

theorem write_key_cons {f : Value → Value} {v : Value} (key : String) (rest : Path)
    (hv : v.shape ≠ .array) :
    write f (.key key :: rest) v =
      ((write f rest (fieldSlot v.fieldsForKey key)).1,
        .object (Fields.put v.fieldsForKey key (write f rest (fieldSlot v.fieldsForKey key)).2)) := by
  have hh := hop_key key hv
  have hl : (v.hop (.key key)).Leads := by rw [hh]; trivial
  rw [write_of_leads f rest hl, hh]
  rfl

/-- An index makes a list of what is no object, even where it fails. -/
theorem write_index_cons {v : Value} (f : Value → Value) (index : Nat) (rest : Path)
    (hv : v.shape ≠ .object) : ∃ items, (write f (.index index :: rest) v).2 = .array items := by
  have hh : v.hop (.index index) = hopToItem v.itemsForIndex index := by
    cases v with
    | object fields => exact absurd rfl hv
    | _ => rfl
  rw [hopToItem_eq] at hh
  split at hh
  · have hl : (v.hop (.index index)).Leads := by rw [hh]; trivial
    rw [write_of_leads f rest hl, hh]
    exact ⟨_, rfl⟩
  · rw [write_of_stuck f rest hh]
    exact ⟨_, rfl⟩

/-- A write that goes on from a scalar does not leave it there. -/
theorem write_cons_ne_self {v : Value} (f : Value → Value) (segment : Segment) (rest : Path)
    (hv : v.isScalar = true) : (write f (segment :: rest) v).2.isScalar = false := by
  cases segment with
  | key key =>
    -- A key makes an object of the scalar, and an index a list.
    have ha : v.shape ≠ .array := by
      rintro e
      cases v <;> cases e
      cases hv
    rw [write_key_cons key rest ha]
    rfl
  | index index =>
    have ho : v.shape ≠ .object := by
      rintro e
      cases v <;> cases e
      cases hv
    obtain ⟨items, hi⟩ := write_index_cons f index rest ho
    rw [hi]
    rfl

/-! ## Where nothing is lost -/

/-- A hop that displaces nothing keeps the data of the value it goes on from. -/
theorem survives_fill {v : Value} {segment : Segment} (child : Value)
    (hl : (v.hop segment).Leads) (hd : v.displaced segment = false) :
    v.Survives (some ((v.hop segment).fill child)) := by
  cases v with
  | null | array items | object fields => trivial
  | handle h =>
    cases segment with
    | index index => cases hd
    | key key =>
      -- The handle is opened for a key that is none of its fields, so that all of them stay.
      refine .inr ⟨Fields.put h.fields key child, rfl, ?_⟩
      intro name w hw
      have hne : name ≠ key := by
        rintro rfl
        simp [displaced, Fields.has, hw] at hd
      rw [Fields.get?_put_of_ne h.fields child hne, hw]
  | _ => cases hd

theorem keeps_of_stuck {v left : Value} {segment : Segment} {reason : SlotError}
    (hs : v.hop segment = .stuck reason left) (hd : v.displaced segment = false) :
    Keeps v left := by
  rcases left_of_stuck hs with rfl | ⟨rfl, ha, ho⟩
  · exact keeps_refl left
  · cases v with
    | null =>
      intro path w hw
      -- Null has nothing to lose, and nothing below it is read.
      obtain rfl := lookup_of_bare (.inl rfl) hw
      trivial
    | array items => exact absurd rfl ha
    | object fields => exact absurd rfl ho
    | handle h =>
      cases segment with
      | key key => cases hs
      | index index => cases hd
    | _ => cases hd

/-- Data that a hop goes past, and data in its slot that survive, survive in the container. -/
theorem keeps_fill {v child : Value} {segment : Segment} (hl : (v.hop segment).Leads)
    (hd : v.displaced segment = false)
    (hc : ∀ old, v.child? segment = some old → Keeps old child) :
    Keeps v ((v.hop segment).fill child) := by
  intro path w hw
  cases path with
  | nil =>
    obtain rfl : v = w := Option.some.inj hw
    exact survives_fill child hl hd
  | cons other rest =>
    obtain ⟨old, ho, hrest⟩ := Option.bind_eq_some_iff.1 hw
    rw [lookup]
    -- The data lie in the slot itself, or beside it.
    by_cases heq : v.place? segment = v.place? other
    · have hs : v.child? segment = some old := (child?_congr heq).trans ho
      rw [child?_fill_of_place?_eq child hs heq]
      exact hc old hs rest w hrest
    · rw [child?_fill_of_place?_ne child hl heq ho]
      show w.Survives (old.lookup rest)
      rw [hrest]
      exact survives_self w

theorem keeps_of_write_error {f : Value → Value} {path : Path} {v v' : Value} {e : SlotError}
    (h : write f path v = (.error e, v')) (hn : ¬ Tramples v path) : Keeps v v' := by
  induction path generalizing v v' with
  | nil => cases h
  | cons segment rest ih =>
    rw [tramples_cons, not_or] at hn
    obtain ⟨hd, hchild⟩ := hn
    have hd : v.displaced segment = false := by simpa using hd
    rcases (v.hop segment).leads_or_stuck with hl | ⟨reason, left, hs⟩
    · rw [write_of_leads f rest hl] at h
      obtain ⟨he, rfl⟩ := Prod.mk.inj h
      apply keeps_fill hl hd
      intro old ho
      -- The write below failed too, and what it left in the slot keeps the data there.
      have hslot : (v.hop segment).slot = old := (hop_of_child? ho).2
      rw [hslot] at he ⊢
      exact ih (Prod.ext he rfl) fun ht => hchild ⟨old, ho, ht⟩
    · rw [write_of_stuck f rest hs] at h
      obtain ⟨_, rfl⟩ := Prod.mk.inj h
      exact keeps_of_stuck hs hd

/-! ## Where data are lost -/

theorem not_survives_of_scalar {v : Value} (f : Value → Value) (segment : Segment) (rest : Path)
    (hv : v.isScalar = true) : ¬ v.Survives (some (write f (segment :: rest) v).2) := by
  intro hs
  have hsame := eq_of_survives hv hs
  have hnot := write_cons_ne_self f segment rest hv
  rw [hsame, hv] at hnot
  cases hnot

/-- A handle is lost when a write that fails goes on below one of its fields. -/
theorem not_survives_of_handle {f : Value → Value} {h : ContractHandle} {key : String} {rest : Path}
    {e : SlotError} {v' : Value} (hw : write f (.key key :: rest) (.handle h) = (.error e, v'))
    (hk : Fields.has h.fields key = true) : ¬ (handle h).Survives (some v') := by
  rw [write_key_cons key rest (by simp [shape])] at hw
  obtain ⟨he, rfl⟩ := Prod.mk.inj hw
  have hfields : (handle h).fieldsForKey = h.fields := rfl
  rw [hfields] at he ⊢
  obtain ⟨w, hget⟩ := Option.isSome_iff_exists.1 hk
  have hslot : fieldSlot h.fields key = w := by simp [fieldSlot, hget]
  have hscalar : w.isScalar = true := by
    obtain ⟨text, rfl⟩ := exists_text_of_field hget
    rfl
  -- The fields of a handle are texts. The write goes on below one and fails, so that it is no text
  -- any more.
  rintro (hs | ⟨fields, hs, hall⟩)
  · cases hs
  · obtain rfl := Value.object.inj (Option.some.inj hs)
    have hsame := hall key w hget
    rw [Fields.get?_put_same, hslot] at hsame
    cases rest with
    | nil => cases he
    | cons segment rest =>
      have hnot := write_cons_ne_self f segment rest hscalar
      rw [Option.some.inj hsame, hscalar] at hnot
      cases hnot

/-- What the first hop of a failed write displaces is lost. -/
theorem not_survives_of_displaced {f : Value → Value} {v v' : Value} {segment : Segment}
    {rest : Path} {e : SlotError} (hw : write f (segment :: rest) v = (.error e, v'))
    (hd : v.displaced segment = true) : ¬ v.Survives (some v') := by
  by_cases hv : v.isScalar = true
  · have hlost := not_survives_of_scalar f segment rest hv
    rw [hw] at hlost
    exact hlost
  · cases v with
    | null | array items | object fields => cases hd
    | handle h =>
      cases segment with
      | key key => exact not_survives_of_handle hw hd
      | index index =>
        obtain ⟨items, hi⟩ :=
          write_index_cons f index rest (show (handle h).shape ≠ .object by simp [shape])
        rw [hw] at hi
        obtain rfl : v' = .array items := hi
        -- A list is neither the handle nor an object with its fields.
        rintro (hs | ⟨fields, hs, _⟩) <;> cases hs
    | _ => exact absurd rfl hv

theorem not_keeps_of_write_error {f : Value → Value} {path : Path} {v v' : Value} {e : SlotError}
    (h : write f path v = (.error e, v')) (ht : Tramples v path) : ¬ Keeps v v' := by
  induction path generalizing v v' with
  | nil => cases h
  | cons segment rest ih =>
    rcases tramples_cons.1 ht with hd | ⟨child, hc, hchild⟩
    · intro hk
      exact not_survives_of_displaced h hd (hk [] v rfl)
    · obtain ⟨hl, hslot⟩ := hop_of_child? hc
      rw [write_of_leads f rest hl, hslot] at h
      obtain ⟨he, rfl⟩ := Prod.mk.inj h
      intro hk
      -- What is lost below the child is lost at the path that goes through it.
      apply ih (Prod.ext he rfl) hchild
      intro path w hw
      have hread : v.lookup (segment :: path) = some w := by rw [lookup, hc]; exact hw
      have hsurvives := hk (segment :: path) w hread
      rw [lookup, child?_fill _ hl] at hsurvives
      exact hsurvives

/-- A failed write keeps all data exactly when its path does not trample on any. -/
theorem keeps_iff_of_write_error {f : Value → Value} {path : Path} {v v' : Value} {e : SlotError}
    (h : write f path v = (.error e, v')) : Keeps v v' ↔ ¬ Tramples v path :=
  ⟨fun hk ht => not_keeps_of_write_error h ht hk, keeps_of_write_error h⟩

end Playbook.Value
