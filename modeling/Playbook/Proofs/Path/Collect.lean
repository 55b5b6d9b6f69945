import Playbook.Proofs.Path.Excerpt
import Playbook.Proofs.Path.Loss

/-!
# Collecting parts of a whole

Parts of a whole are collected by writing what its paths lead to, one after another, into a value
that starts without any. The main statements: such a write succeeds if its indices are small and no
path enters by a key where another one enters by an index; and a first write by a great index fails,
as does a write by an index after a first one by a key.
-/

namespace Playbook.Value

/-- After the same hops, the first path goes on by a key and the second one by an index. -/
inductive Clash : Path → Path → Prop where
  | here {key : String} {index : Nat} {p q : Path} : Clash (.key key :: p) (.index index :: q)
  | there {hop : Segment} {p q : Path} (h : Clash p q) : Clash (hop :: p) (hop :: q)

/-- Every index of the path can be written into an empty list. -/
def Near (path : Path) : Prop :=
  ∀ index, Segment.index index ∈ path → index < maxPadding

/-- What writes at some paths make of the parts of a whole: nothing yet, all of it, an object that
an object or, by keys, a list is entered by, or a list that a list is entered by at its indices. -/
inductive Collected : (Path → Prop) → Value → Value → Prop where
  | nothing {P : Path → Prop} {whole : Value} : Collected P .null whole
  | all {P : Path → Prop} {part whole : Value} (h : part.Agrees whole) : Collected P part whole
  | fields {P : Path → Prop} {fields : Fields Value} {whole : Value}
      (entered : whole.shape = .array → ∃ key rest, P (.key key :: rest))
      (children : ∀ key child child', Fields.get? fields key = some child →
        whole.child? (.key key) = some child' →
        Collected (fun rest => P (.key key :: rest)) child child') :
      Collected P (.object fields) whole
  | items {P : Path → Prop} {items : List Value} {whole : Value}
      (entered : ∃ index rest, P (.index index :: rest))
      (children : ∀ index child child', items[index]? = some child →
        whole.child? (.index index) = some child' →
        Collected (fun rest => P (.index index :: rest)) child child') :
      Collected P (.array items) whole

theorem Near.tail {hop : Segment} {path : Path} (h : Near (hop :: path)) : Near path :=
  fun index hindex => h index (List.mem_cons_of_mem hop hindex)

/-! ## What is collected -/

theorem Collected.mono {P Q : Path → Prop} {part whole : Value} (h : Collected P part whole)
    (hpq : ∀ path, P path → Q path) : Collected Q part whole := by
  induction h generalizing Q with
  | nothing => exact .nothing
  | all h => exact .all h
  | fields entered children ih =>
    refine .fields (fun hs => ?_) fun key child child' hc hc' => ?_
    · obtain ⟨key, rest, hp⟩ := entered hs
      exact ⟨key, rest, hpq _ hp⟩
    · exact ih key child child' hc hc' fun rest => hpq (.key key :: rest)
  | items entered children ih =>
    refine .items ?_ fun index child child' hc hc' => ?_
    · obtain ⟨index, rest, hp⟩ := entered
      exact ⟨index, rest, hpq _ hp⟩
    · exact ih index child child' hc hc' fun rest => hpq (.index index :: rest)

/-- Where no path enters by an index, all is collected or there are fields to write to. -/
theorem Collected.fieldsForKey {P : Path → Prop} {part whole : Value} (h : Collected P part whole)
    (hp : ∀ index rest, ¬ P (.index index :: rest)) :
    part.Agrees whole ∨ part.shape ≠ .array ∧
      ∀ key child child', Fields.get? part.fieldsForKey key = some child →
        whole.child? (.key key) = some child' →
        Collected (fun rest => P (.key key :: rest)) child child' := by
  cases h with
  | nothing => exact .inr ⟨by simp [shape], fun key child child' hc => by cases hc⟩
  | all h => exact .inl h
  | fields entered children => exact .inr ⟨by simp [shape], children⟩
  | items entered children =>
    obtain ⟨index, rest, hindex⟩ := entered
    exact absurd hindex (hp index rest)

/-- Where no path enters by a key, all of a list is collected or there are items to write to. -/
theorem Collected.itemsForIndex {P : Path → Prop} {part whole : Value} (h : Collected P part whole)
    (hw : whole.shape = .array) (hp : ∀ key rest, ¬ P (.key key :: rest)) :
    part.Agrees whole ∨ part.shape ≠ .object ∧
      ∀ index child child', part.itemsForIndex[index]? = some child →
        whole.child? (.index index) = some child' →
        Collected (fun rest => P (.index index :: rest)) child child' := by
  cases h with
  | nothing => exact .inr ⟨by simp [shape], fun index child child' hc => by cases hc⟩
  | all h => exact .inl h
  | fields entered children =>
    obtain ⟨key, rest, hkey⟩ := entered hw
    exact absurd hkey (hp key rest)
  | items entered children => exact .inr ⟨by simp [shape], children⟩

theorem collected_put {P : Path → Prop} {fields : Fields Value} {whole child child' : Value}
    {key : String} {rest : Path}
    (hold : ∀ other held held', Fields.get? fields other = some held →
      whole.child? (.key other) = some held' →
      Collected (fun path => P (.key other :: path)) held held')
    (hc : whole.child? (.key key) = some child')
    (hnew : Collected (fun path => P (.key key :: path) ∨ path = rest) child child') :
    Collected (fun path => P path ∨ path = .key key :: rest)
      (.object (Fields.put fields key child)) whole := by
  refine .fields (fun _ => ⟨key, rest, .inr rfl⟩) fun other held held' hheld hheld' => ?_
  by_cases hk : other = key
  · subst hk
    rw [Fields.get?_put_same] at hheld
    obtain rfl := Option.some.inj hheld
    obtain rfl : child' = held' := Option.some.inj (hc.symm.trans hheld')
    exact hnew.mono fun path => Or.imp_right (congrArg _)
  -- The other fields are collected as before.
  · rw [Fields.get?_put_of_ne fields child hk] at hheld
    exact (hold other held held' hheld hheld').mono fun path => Or.inl

theorem collected_set {P : Path → Prop} {items : List Value} {whole child child' : Value}
    {index : Nat} {rest : Path}
    (hold : ∀ i held held', items[i]? = some held → whole.child? (.index i) = some held' →
      Collected (fun path => P (.index i :: path)) held held')
    (hc : whole.child? (.index index) = some child')
    (hnew : Collected (fun path => P (.index index :: path) ∨ path = rest) child child') :
    Collected (fun path => P path ∨ path = .index index :: rest)
      (.array ((padded items index).set index child)) whole := by
  refine .items ⟨index, rest, .inr rfl⟩ fun i held held' hheld hheld' => ?_
  by_cases hi : index = i
  · subst hi
    rw [List.getElem?_set_self (lt_length_padded items index)] at hheld
    obtain rfl := Option.some.inj hheld
    obtain rfl : child' = held' := Option.some.inj (hc.symm.trans hheld')
    exact hnew.mono fun path => Or.imp_right (congrArg _)
  · rw [List.getElem?_set_ne hi] at hheld
    -- The other items are collected as before, and what the list is filled up with holds nothing.
    rcases getElem?_padded_cases hheld with hitem | ⟨rfl, _⟩
    · exact (hold i held held' hitem hheld').mono fun path => Or.inl
    · exact .nothing

/-! ## Writes that succeed -/

/-- Where a path leads, a write at it succeeds. -/
theorem exists_write_of_lookup {v w : Value} {path : Path} (f : Value → Value)
    (h : v.lookup path = some w) : ∃ v', write f path v = (.ok w, v') := by
  have hwrite := (write_append f [] h).1
  rw [List.append_nil] at hwrite
  exact ⟨(write f path v).2, Prod.ext hwrite rfl⟩

/-- A hop from what is collected goes on to what is collected below it, and collects what the slot
is filled with. -/
structure Onward (P : Path → Prop) (segment : Segment) (rest : Path) (part whole child : Value) :
    Prop where
  leads : (part.hop segment).Leads
  slot : Collected (fun path => P (segment :: path)) (part.hop segment).slot child
  fill : ∀ child', Collected (fun path => P (segment :: path) ∨ path = rest) child' child →
    Collected (fun path => P path ∨ path = segment :: rest) ((part.hop segment).fill child') whole

theorem Collected.onward_key {P : Path → Prop} {part whole child : Value} {key : String}
    (rest : Path) (h : Collected P part whole) (hc : whole.child? (.key key) = some child)
    (hp : ∀ index path, ¬ P (.index index :: path)) :
    part.Agrees whole ∨ Onward P (.key key) rest part whole child := by
  rcases h.fieldsForKey hp with hagrees | ⟨hshape, hfields⟩
  · exact .inl hagrees
  have hhop := hop_key key hshape
  refine .inr ⟨by simp [hhop, Hop.Leads], ?_, fun child' hchild => ?_⟩
  · simp only [hhop, Hop.slot, fieldSlot]
    cases hheld : Fields.get? part.fieldsForKey key with
    | none => exact .nothing
    | some held => exact hfields key held child hheld hc
  · simp only [hhop, Hop.fill]
    exact collected_put hfields hc hchild

theorem Collected.onward_index {P : Path → Prop} {part whole child : Value} {index : Nat}
    (rest : Path) (h : Collected P part whole) (hc : whole.child? (.index index) = some child)
    (hlt : index < maxPadding) (hp : ∀ key path, ¬ P (.key key :: path)) :
    part.Agrees whole ∨ Onward P (.index index) rest part whole child := by
  have hwhole : whole.shape = .array := by
    cases whole with
    | array all => rfl
    | _ => cases hc
  rcases h.itemsForIndex hwhole hp with hagrees | ⟨hshape, hitems⟩
  · exact .inl hagrees
  have hhop := hop_index hshape (Nat.lt_add_left part.itemsForIndex.length hlt)
  refine .inr ⟨by simp [hhop, Hop.Leads], ?_, fun child' hchild => ?_⟩
  · rw [hhop, Hop.slot, itemSlot_padded, itemSlot]
    cases hheld : part.itemsForIndex[index]? with
    | none => exact .nothing
    | some held => exact hitems index held child hheld hc
  · simp only [hhop, Hop.fill]
    exact collected_set hitems hc hchild

/-- Where a path that leads on in the whole clashes with none that was written, and its first index
is small, all is collected or there is a hop to go on by. -/
theorem Collected.onward {P : Path → Prop} {part whole child : Value} {segment : Segment}
    {rest : Path} (h : Collected P part whole) (hc : whole.child? segment = some child)
    (hnear : Near (segment :: rest))
    (hclash : ∀ other, P other → ¬ Clash other (segment :: rest) ∧ ¬ Clash (segment :: rest) other) :
    part.Agrees whole ∨ Onward P segment rest part whole child := by
  cases segment with
  -- No path that was written goes on by a hop of the other kind, for it would clash.
  | key key => exact h.onward_key rest hc fun index path hindex => (hclash _ hindex).2 .here
  | index index =>
    exact h.onward_index rest hc (hnear index List.mem_cons_self) fun key path hkey =>
      (hclash _ hkey).1 .here

/-- What a path leads to in a whole can be written where only paths that it does not clash with have
been written, and is collected with what was there. -/
theorem exists_write_of_collected {P : Path → Prop} {part whole v : Value} {path : Path}
    (hw : whole.WellFormed) (h : Collected P part whole) (he : part.ExcerptOf whole)
    (hv : whole.lookup path = some v) (hnear : Near path)
    (hclash : ∀ other, P other → ¬ Clash other path ∧ ¬ Clash path other) :
    ∃ old part', write (·.merge v) path part = (.ok old, part') ∧
      Collected (fun other => P other ∨ other = path) part' whole := by
  induction path generalizing P part whole with
  | nil =>
    obtain rfl : whole = v := Option.some.inj hv
    exact ⟨part, part.merge whole, rfl, .all (agrees_merge hw he)⟩
  | cons segment rest ih =>
    obtain ⟨child, hc, hchild⟩ := Option.bind_eq_some_iff.1 hv
    rcases h.onward hc hnear hclash with hagrees | hon
    · -- Where all is collected, the path leads as in the whole.
      obtain ⟨w, hread, _⟩ := hagrees.2 (segment :: rest) v hv
      obtain ⟨part', hwrite⟩ := exists_write_of_lookup (·.merge v) hread
      obtain ⟨hlow, hhigh, _⟩ := write_excerptOf hw he hv hwrite
      exact ⟨w, part', hwrite, .all (hagrees.of_between hlow hhigh)⟩
    · have hrest : ∀ other, P (segment :: other) → ¬ Clash other rest ∧ ¬ Clash rest other :=
        fun other hother => ⟨fun hcl => (hclash _ hother).1 (.there hcl),
          fun hcl => (hclash _ hother).2 (.there hcl)⟩
      obtain ⟨old, child', hwrite, hcollected⟩ :=
        ih (wellFormed_child? hw hc) hon.slot (he.slot hc hon.leads) hchild hnear.tail hrest
      refine ⟨old, (part.hop segment).fill child', ?_, hon.fill child' hcollected⟩
      simp [write_of_leads _ rest hon.leads, hwrite]

/-! ## Writes that fail -/

/-- The value holds nothing: it is null, or an object without names. -/
def IsBlank (v : Value) : Prop :=
  v = .null ∨ v = .object []

theorem IsBlank.shape_ne_array {v : Value} (h : v.IsBlank) : v.shape ≠ .array := by
  obtain rfl | rfl := h <;> simp [shape]

theorem IsBlank.slot {v : Value} {segment : Segment} (h : v.IsBlank)
    (hl : (v.hop segment).Leads) : (v.hop segment).slot = .null := by
  have hnone : v.child? segment = none := by
    obtain rfl | rfl := h <;> cases segment <;> rfl
  rcases hl.cases with ⟨key, rfl, _, hf⟩ | ⟨index, _, ho, hh⟩
  · obtain rfl | rfl := h <;> simp [hf, Hop.slot, fieldSlot, fieldsForKey, opened]
  · obtain rfl | rfl := h
    · rw [hh, Hop.slot, itemSlot_padded]
      rfl
    · exact absurd rfl ho

theorem IsBlank.index_lt {v : Value} {index : Nat} (h : v.IsBlank)
    (hl : (v.hop (.index index)).Leads) : index < maxPadding := by
  refine Decidable.byContradiction fun hge => ?_
  obtain rfl | rfl := h
  · simp [hop, hopToItem_eq, hge, Hop.Leads] at hl
  · simp [hop, Hop.Leads] at hl

/-- A first write does not lead past an index that cannot be written into an empty list. -/
theorem write_error_of_not_near {f : Value → Value} {v : Value} {path : Path} (hv : v.IsBlank)
    (h : ¬ Near path) : ∃ e, (write f path v).1 = .error e := by
  induction path generalizing v with
  | nil => exact absurd (fun _ hindex => nomatch hindex) h
  | cons segment rest ih =>
    rcases (v.hop segment).leads_or_stuck with hl | ⟨reason, left, hs⟩
    · have hrest : ¬ Near rest := by
        intro hnear
        refine h fun index hindex => ?_
        rcases List.mem_cons.1 hindex with rfl | hmem
        · exact hv.index_lt hl
        · exact hnear index hmem
      obtain ⟨e, he⟩ := ih (.inl (hv.slot hl)) hrest
      exact ⟨e, by simp [write_of_leads f rest hl, he]⟩
    · exact ⟨reason, by simp [write_of_stuck f rest hs]⟩

/-- After a first write by a key, a write by an index fails where the paths part. -/
theorem write_error_of_clash {f g : Value → Value} {p q : Path} {v v' old : Value}
    (hv : v.IsBlank) (h : Clash p q) (hp : write f p v = (.ok old, v')) :
    ∃ e, (write g q v').1 = .error e := by
  induction h generalizing v v' with
  | @here key index p q =>
    rw [write_key_cons key p hv.shape_ne_array] at hp
    obtain ⟨_, rfl⟩ := Prod.mk.inj hp
    have hs (fields : Fields Value) : (object fields).hop (.index index) =
        .stuck (.indexIntoObject index) (.object fields) := rfl
    exact ⟨_, by rw [write_of_stuck g q (hs _)]⟩
  | @there hop p q _ ih =>
    obtain ⟨hl, child, hwrite, rfl⟩ := write_cons_ok hp
    obtain ⟨e, he⟩ := ih (.inl (hv.slot hl)) hwrite
    obtain ⟨hl', hslot⟩ := hop_of_child? (child?_fill child hl)
    exact ⟨e, by simp [write_of_leads g q hl', hslot, he]⟩

end Playbook.Value
