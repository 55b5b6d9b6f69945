import Playbook.Path.Lookup
import Playbook.Proofs.Value.WellFormed

/-!
# Excerpts

An excerpt of a value has parts of it in the places where they were: nulls fill the places of a list
that are left out, and an object may stand for a list, its names spelling the places. Two values
agree when each is an excerpt of the other; they differ in the order of names at most. The main
statement: a well-formed value that is merged into an excerpt of it makes the excerpt agree with it.
-/

namespace Playbook.Value

/-- What may stand for a value in an excerpt: null for any, a list for a list, an object for an
object or for a list, and every other value for itself. -/
def StandsFor : Value → Value → Prop
  | .null, _ => True
  | .array _, w => w.shape = .array
  | .object _, w => w.shape = .object ∨ w.shape = .array
  | v, w => v = w

/-- Whatever is read in the first value stands for what is read at the same path in the second. -/
def ExcerptOf (part whole : Value) : Prop :=
  ∀ path v, part.lookup path = some v → ∃ w, whole.lookup path = some w ∧ v.StandsFor w

/-- No path tells the two values apart. -/
def Agrees (v w : Value) : Prop :=
  v.ExcerptOf w ∧ w.ExcerptOf v

/-- The value is neither null nor a container. -/
def isLeaf : Value → Bool
  | .null | .array _ | .object _ => false
  | _ => true

/-! ## What stands for what -/

theorem standsFor_self (v : Value) : v.StandsFor v := by
  cases v <;> simp [StandsFor, shape]

theorem StandsFor.trans {u v w : Value} (huv : u.StandsFor v) (hvw : v.StandsFor w) :
    u.StandsFor w := by
  cases u with
  | null => trivial
  | array items => cases v <;> simp_all [StandsFor, shape]
  | object fields => cases v <;> simp_all [StandsFor, shape]
  | _ =>
    obtain rfl := huv
    exact hvw

theorem StandsFor.eq_of_isLeaf {v w : Value} (h : v.StandsFor w) (hv : v.isLeaf = true) : v = w := by
  cases v with
  | null | array items | object fields => cases hv
  | _ => exact h

/-! ## Excerpts -/

theorem excerptOf_refl (v : Value) : v.ExcerptOf v :=
  fun _ w hw => ⟨w, hw, standsFor_self w⟩

theorem ExcerptOf.trans {u v w : Value} (huv : u.ExcerptOf v) (hvw : v.ExcerptOf w) :
    u.ExcerptOf w := by
  intro path x hx
  obtain ⟨y, hy, hxy⟩ := huv path x hx
  obtain ⟨z, hz, hyz⟩ := hvw path y hy
  exact ⟨z, hz, hxy.trans hyz⟩

theorem ExcerptOf.standsFor {part whole : Value} (h : part.ExcerptOf whole) :
    part.StandsFor whole := by
  obtain ⟨w, hw, hs⟩ := h [] part rfl
  obtain rfl : whole = w := Option.some.inj hw
  exact hs

theorem ExcerptOf.child? {part whole child : Value} {segment : Segment}
    (h : part.ExcerptOf whole) (hc : part.child? segment = some child) :
    ∃ child', whole.child? segment = some child' ∧ child.ExcerptOf child' := by
  obtain ⟨child', hc', _⟩ := h [segment] child (by simp [lookup, hc])
  have hwhole : whole.child? segment = some child' := by
    simpa [lookup] using hc'
  refine ⟨child', hwhole, fun path v hv => ?_⟩
  obtain ⟨w, hw, hs⟩ := h (segment :: path) v (by simpa [lookup, hc] using hv)
  exact ⟨w, by simpa [lookup, hwhole] using hw, hs⟩

/-- An excerpt stands for the whole, and its children are excerpts of those of the whole. -/
theorem excerptOf_of_children {part whole : Value} (hs : part.StandsFor whole)
    (hc : ∀ segment child, part.child? segment = some child →
      ∃ child', whole.child? segment = some child' ∧ child.ExcerptOf child') :
    part.ExcerptOf whole := by
  intro path v hv
  cases path with
  | nil =>
    obtain rfl := Option.some.inj hv
    exact ⟨whole, rfl, hs⟩
  | cons segment rest =>
    obtain ⟨child, hchild, hv⟩ := Option.bind_eq_some_iff.1 hv
    obtain ⟨child', hchild', hex⟩ := hc segment child hchild
    obtain ⟨w, hw, hstands⟩ := hex rest v hv
    exact ⟨w, by simpa [lookup, hchild'] using hw, hstands⟩

theorem excerptOf_null (whole : Value) : ExcerptOf .null whole :=
  excerptOf_of_children trivial fun segment _ hc => by cases segment <;> cases hc

/-- An excerpt is read part by part. -/
theorem ExcerptOf.lookup {part whole v : Value} {path : Path} (h : part.ExcerptOf whole)
    (hv : part.lookup path = some v) : ∃ w, whole.lookup path = some w ∧ v.ExcerptOf w := by
  induction path generalizing part whole with
  | nil =>
    obtain rfl := Option.some.inj hv
    exact ⟨whole, rfl, h⟩
  | cons segment rest ih =>
    obtain ⟨child, hc, hv⟩ := Option.bind_eq_some_iff.1 hv
    obtain ⟨child', hc', hex⟩ := h.child? hc
    obtain ⟨w, hw, hvw⟩ := ih hex hv
    exact ⟨w, by simpa [Value.lookup, hc'] using hw, hvw⟩

/-- A value of which something is an excerpt that has a child is a container. -/
theorem shape_of_child? {v child : Value} {segment : Segment} (h : v.child? segment = some child) :
    v.shape = .object ∨ v.shape = .array := by
  cases v with
  | object fields => exact .inl rfl
  | array items => exact .inr rfl
  | _ => cases segment <;> cases h

/-- What an excerpt has in place of a value with children. -/
theorem ExcerptOf.cases {part whole child : Value} {segment : Segment} (h : part.ExcerptOf whole)
    (hc : whole.child? segment = some child) :
    part = .null ∨ (∃ fields, part = .object fields) ∨ ∃ items, part = .array items := by
  cases part with
  | null => exact .inl rfl
  | object fields => exact .inr (.inl ⟨fields, rfl⟩)
  | array items => exact .inr (.inr ⟨items, rfl⟩)
  | _ =>
    obtain rfl := h.standsFor.eq_of_isLeaf rfl
    cases segment <;> cases hc

/-! ## Agreement -/

theorem agrees_refl (v : Value) : v.Agrees v :=
  ⟨excerptOf_refl v, excerptOf_refl v⟩

/-- What lies between a value and one that it agrees with agrees with it. -/
theorem Agrees.of_between {u v w : Value} (h : u.Agrees w) (huv : u.ExcerptOf v)
    (hvw : v.ExcerptOf w) : v.Agrees w :=
  ⟨hvw, h.2.trans huv⟩

/-- Values that agree are the same one, unless they are containers. -/
theorem Agrees.eq {v w : Value} (h : v.Agrees w) (hw : w.shape ≠ .array) (ho : w.shape ≠ .object) :
    v = w := by
  cases w with
  | null =>
    have hv := h.1.standsFor
    cases v <;> simp_all [StandsFor, shape]
  | array items => exact absurd rfl hw
  | object fields => exact absurd rfl ho
  | _ => exact (h.2.standsFor.eq_of_isLeaf rfl).symm

theorem excerptOf_object {f g : Fields Value}
    (h : ∀ key v, Fields.get? f key = some v → ∃ w, Fields.get? g key = some w ∧ v.ExcerptOf w) :
    (object f).ExcerptOf (object g) := by
  refine excerptOf_of_children (.inl rfl) fun segment child hc => ?_
  cases segment with
  | key key => exact h key child hc
  | index index => cases hc

/-! ## Merges -/

theorem get?_mergeFields {existing incoming : Fields Value} (hd : incoming.Distinct) (key : String) :
    Fields.get? (mergeFields existing incoming) key =
      match Fields.get? incoming key with
      | none => Fields.get? existing key
      | some v => some (match Fields.get? existing key with
        | some old => merge old v
        | none => v) := by
  induction incoming generalizing existing with
  | nil => simp [mergeFields]
  | cons entry rest ih =>
    obtain ⟨name, v⟩ := entry
    obtain ⟨hnew, hrest⟩ := List.nodup_cons.1 hd
    simp only [mergeFields, Fields.get?]
    rw [ih hrest]
    by_cases hname : name = key
    · subst hname
      have hmem : name ∉ Fields.names rest := hnew
      have hnone : Fields.get? rest name = none := by
        simpa [Fields.mem_names_iff_get?] using hmem
      cases hold : Fields.get? existing name <;> simp [hnone]
    · simp [hname, Fields.get?_put_of_ne existing _ (Ne.symm hname)]

mutual

/-- A well-formed value that is merged into an excerpt of it makes the excerpt agree with it. -/
theorem agrees_merge : ∀ {v part : Value}, v.WellFormed → part.ExcerptOf v →
    (part.merge v).Agrees v
  | .object fields, part, hv, h => by
    -- An object has only nulls and objects for its excerpts.
    have hcases : part = .null ∨ ∃ f, part = .object f := by
      have hs := h.standsFor
      cases part with
      | null => exact .inl rfl
      | object f => exact .inr ⟨f, rfl⟩
      | _ => cases hs
    rcases hcases with rfl | ⟨f, rfl⟩
    · simpa [merge, opened] using agrees_refl (object fields)
    -- Field by field, what the excerpt lacks is taken over, and what it has is merged into.
    have hfield : ∀ key w, Fields.get? fields key = some w →
        ∃ v, Fields.get? (mergeFields f fields) key = some v ∧ v.Agrees w := by
      intro key w hw
      cases hold : Fields.get? f key with
      | none => exact ⟨w, by simp [get?_mergeFields hv.1, hw, hold], agrees_refl w⟩
      | some old =>
        obtain ⟨w', hw', hex⟩ := h.child? (show (object f).child? (.key key) = some old from hold)
        obtain rfl : w = w' := Option.some.inj (hw.symm.trans hw')
        exact ⟨old.merge w, by simp [get?_mergeFields hv.1, hw, hold],
          agrees_merge_field hv.2 hw hex⟩
    rw [merge_object]
    constructor
    · refine excerptOf_object fun key v hmerged => ?_
      cases hw : Fields.get? fields key with
      | none =>
        have hold : Fields.get? f key = some v := by
          simpa [get?_mergeFields hv.1, hw] using hmerged
        obtain ⟨w, hw', _⟩ := h.child? (show (object f).child? (.key key) = some v from hold)
        exact absurd (hw.symm.trans hw') (by simp)
      | some w =>
        obtain ⟨v', hv', hagrees⟩ := hfield key w hw
        obtain rfl : v = v' := Option.some.inj (hmerged.symm.trans hv')
        exact ⟨w, rfl, hagrees.1⟩
    · refine excerptOf_object fun key w hw => ?_
      obtain ⟨v, hmerged, hagrees⟩ := hfield key w hw
      exact ⟨v, hmerged, hagrees.2⟩
  | .null, _, _, _ | .bool _, _, _, _ | .number _, _, _, _ | .bigInt _, _, _, _ | .date _, _, _, _
  | .string _, _, _, _ | .bytes _, _, _, _ | .array _, _, _, _ | .handle _, _, _, _ => by
    rw [merge_of_not_isObject _ rfl]
    exact agrees_refl _

theorem agrees_merge_field : ∀ {fields : List (String × Value)}, FieldsWellFormed fields →
    ∀ {name : String} {v part : Value}, Fields.get? fields name = some v → part.ExcerptOf v →
      (part.merge v).Agrees v
  | [], _, _, _, _, hv, _ => by cases hv
  | (key, w) :: rest, hf, name, v, part, hv, h => by
    rw [Fields.get?] at hv
    split at hv
    · obtain rfl := Option.some.inj hv
      exact agrees_merge hf.1 h
    · exact agrees_merge_field hf.2 hv h

end

end Playbook.Value
