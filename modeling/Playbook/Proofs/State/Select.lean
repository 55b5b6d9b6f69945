import Playbook.Proofs.Path.Excerpt
import Playbook.Proofs.State.Reachable

/-!
# Selecting parts of the state

A selection copies what references name out of the state, one after another, into a part of it that
becomes a document. Each of them only adds to what was selected before, adds nothing that the state
does not hold at the same place, and is shown from then on. The main statement: a selection invents
nothing.
-/

namespace Playbook.Store

open Value

/-! ## Excerpts of the state -/

/-- Every namespace of the first state is an excerpt of the same one of the second. -/
def ExcerptOf (part whole : Store) : Prop :=
  ∀ space root, part.root? space = some root →
    ∃ root', whole.root? space = some root' ∧ root.ExcerptOf root'

variable {store selected later : Store} {space : Namespace}

theorem excerptOf_empty (store : Store) : empty.ExcerptOf store := by
  intro space root h
  cases space <;> cases h

theorem ExcerptOf.trans {first second third : Store} (h : first.ExcerptOf second)
    (h' : second.ExcerptOf third) : first.ExcerptOf third := by
  intro space root hr
  obtain ⟨root', hr', hex⟩ := h space root hr
  obtain ⟨root'', hr'', hex'⟩ := h' space root' hr'
  exact ⟨root'', hr'', hex.trans hex'⟩

theorem ExcerptOf.read? {path : Path} {v : Value} (h : selected.ExcerptOf store)
    (hv : selected.read? space path = some v) :
    ∃ w, store.read? space path = some w ∧ v.ExcerptOf w := by
  obtain ⟨root, hr, hl⟩ := Option.bind_eq_some_iff.1 hv
  obtain ⟨root', hr', hex⟩ := h space root hr
  obtain ⟨w, hw, hvw⟩ := hex.lookup hl
  exact ⟨w, by simp [Store.read?, hr', hw], hvw⟩

/-- An absent namespace counts as an empty object, which is an excerpt of any other. -/
theorem ExcerptOf.root (h : selected.ExcerptOf store) (hs : store.WellFormed) (space : Namespace) :
    (selected.root space).ExcerptOf (store.root space) := by
  cases hr : selected.root? space with
  | none =>
    obtain ⟨fields, hfields⟩ := hs.fields space
    have hempty : selected.root space = .object [] := by simp [Store.root, hr]
    rw [hempty, hfields]
    exact excerptOf_object fun key v hv => by cases hv
  | some root =>
    obtain ⟨root', hr', hex⟩ := h space root hr
    simpa [Store.root, hr, hr'] using hex

/-- A namespace may be replaced by what it is an excerpt of, if that is an excerpt of the same one
of the state. -/
theorem excerptOf_setRoot {root root' : Value} (h : selected.ExcerptOf store)
    (hr' : store.root? space = some root') (hlow : (selected.root space).ExcerptOf root)
    (hhigh : root.ExcerptOf root') :
    selected.ExcerptOf (selected.setRoot space root) ∧ (selected.setRoot space root).ExcerptOf store := by
  constructor
  · intro other held hheld
    by_cases hne : other = space
    · subst hne
      refine ⟨root, by simp, ?_⟩
      simpa [Store.root, hheld] using hlow
    · exact ⟨held, by rw [root?_setRoot_of_ne selected root hne, hheld], Value.excerptOf_refl held⟩
  · intro other held hheld
    by_cases hne : other = space
    · subst hne
      rw [root?_setRoot_same] at hheld
      obtain rfl := Option.some.inj hheld
      exact ⟨root', hr', hhigh⟩
    · rw [root?_setRoot_of_ne selected root hne] at hheld
      exact h other held hheld

/-! ## One reference -/

/-- What the state holds at the empty path of a namespace is an object. -/
theorem not_refused_of_get? {path : String} {v : Value} (hs : store.WellFormed)
    (hv : store.get? space path = some v) : ¬ Refused path v := by
  rintro ⟨hp, ho⟩
  rw [get?_eq_read?, hp] at hv
  obtain ⟨root, hr, hl⟩ := Option.bind_eq_some_iff.1 hv
  obtain rfl : root = v := Option.some.inj hl
  rw [(hs space root hr).1] at ho
  cases ho

/-- To select what a reference leads to is to write it where it is in the state. -/
theorem selectOne_of_get? {reference path : String} {v root : Value}
    {outcome : Except SlotError Value} (hs : store.WellFormed)
    (hsel : selection reference = .ok (space, path)) (hv : store.get? space path = some v)
    (hw : (selected.root space).write (·.merge v) (Path.parse path) = (outcome, root)) :
    store.selectOne selected reference =
      (outcome.map fun _ => selected.setRoot space root).mapError
        fun fault => .resolution (.slot path fault) := by
  have hset := set_of_not_refused (not_refused_of_get? hs hv) hw
  by_cases hp : path = ""
  · -- The root is merged into without a write, to the same effect.
    subst hp
    obtain ⟨rfl, rfl⟩ := Prod.mk.inj hw
    simp only [selectOne, hsel, hv, bind, Except.bind, pure, Except.pure]
    rfl
  · simp only [selectOne, hsel, hv, hp, hset, bind, Except.bind, pure, Except.pure]
    cases outcome <;> rfl

theorem selectOne_of_get?_eq_none {reference path : String}
    (hsel : selection reference = .ok (space, path)) (hv : store.get? space path = none) :
    store.selectOne selected reference = .ok selected := by
  simp [selectOne, hsel, hv, bind, Except.bind, pure, Except.pure]

/-- A reference that can be selected names a namespace. -/
theorem exists_selection {reference : String} (h : store.selectOne selected reference = .ok later) :
    ∃ space path, selection reference = .ok (space, path) := by
  cases hsel : selection reference with
  | error e =>
    rw [selectOne, hsel] at h
    cases h
  | ok place => exact ⟨place.1, place.2, rfl⟩

/-- A reference that is selected leads to nothing, or what it leads to is written. -/
theorem selectOne_eq_ok {reference path : String} (hs : store.WellFormed)
    (hsel : selection reference = .ok (space, path))
    (h : store.selectOne selected reference = .ok later) :
    store.get? space path = none ∧ later = selected ∨
      ∃ v old root, store.get? space path = some v ∧
        (selected.root space).write (·.merge v) (Path.parse path) = (.ok old, root) ∧
        later = selected.setRoot space root := by
  cases hv : store.get? space path with
  | none =>
    rw [selectOne_of_get?_eq_none hsel hv] at h
    exact .inl ⟨rfl, (Except.ok.inj h).symm⟩
  | some v =>
    rcases hw : (selected.root space).write (·.merge v) (Path.parse path) with ⟨fault | old, root⟩
    · rw [selectOne_of_get? hs hsel hv hw] at h
      cases h
    · rw [selectOne_of_get? hs hsel hv hw] at h
      exact .inr ⟨v, old, root, rfl, hw, (Except.ok.inj h).symm⟩

/-! ## Selecting -/

/-- What the state holds at the place of a reference is found there in the selected part. -/
def Shows (store selected : Store) (reference : String) : Prop :=
  ∀ space path v, selection reference = .ok (space, path) → store.get? space path = some v →
    ∃ w, selected.get? space path = some w ∧ w.Agrees v

/-- A selection goes on from one part of the state to a later one. -/
structure Selected (store selected : Store) (references : List String) (later : Store) : Prop where
  /-- Nothing that was selected goes. -/
  kept : selected.ExcerptOf later
  /-- Nothing comes that is not in the state. -/
  excerpt : later.ExcerptOf store
  /-- What the references lead to is there. -/
  shows : ∀ reference ∈ references, store.Shows later reference
  /-- No namespace comes that is not named. -/
  named : ∀ space, (later.root? space).isSome = true → (selected.root? space).isSome = true ∨
    ∃ reference ∈ references, ∃ path, selection reference = .ok (space, path)

theorem shows_of_selection {reference path : String}
    (hsel : selection reference = .ok (space, path))
    (h : ∀ v, store.get? space path = some v → ∃ w, selected.get? space path = some w ∧ w.Agrees v) :
    store.Shows selected reference := by
  intro space' path' v hsel' hv
  obtain ⟨rfl, rfl⟩ := Prod.mk.inj (Except.ok.inj (hsel.symm.trans hsel'))
  exact h v hv

/-- What a part of the state shows, later parts show. -/
theorem Shows.mono {reference : String} (h : store.Shows selected reference)
    (hkept : selected.ExcerptOf later) (he : later.ExcerptOf store) :
    store.Shows later reference := by
  intro space path v hsel hv
  obtain ⟨w, hw, hagrees⟩ := h space path v hsel hv
  -- What is read later lies between what was read before and what the state holds.
  obtain ⟨w', hw', hlow⟩ := hkept.read? hw
  obtain ⟨v', hv', hhigh⟩ := he.read? hw'
  obtain rfl : v = v' := Option.some.inj (hv.symm.trans hv')
  exact ⟨w', hw', hagrees.of_between hlow hhigh⟩

theorem selected_nil (he : selected.ExcerptOf store) : Selected store selected [] selected where
  kept := fun _ root h => ⟨root, h, Value.excerptOf_refl root⟩
  excerpt := he
  shows := fun _ hmem => nomatch hmem
  named := fun _ h => .inl h

theorem Selected.cons {final : Store} {reference : String} {references : List String}
    (h : Selected store selected [reference] later) (h' : Selected store later references final) :
    Selected store selected (reference :: references) final where
  kept := h.kept.trans h'.kept
  excerpt := h'.excerpt
  shows := by
    intro other hmem
    rcases List.mem_cons.1 hmem with rfl | hmem
    · exact (h.shows other List.mem_cons_self).mono h'.kept h'.excerpt
    · exact h'.shows other hmem
  named := by
    intro space hsome
    -- A namespace was there before, or came with the first reference or with a later one.
    rcases h'.named space hsome with hlater | ⟨other, hmem, hsel⟩
    · rcases h.named space hlater with hold | ⟨other, hmem, hsel⟩
      · exact .inl hold
      · obtain rfl := List.mem_singleton.1 hmem
        exact .inr ⟨other, List.mem_cons_self, hsel⟩
    · exact .inr ⟨other, List.mem_cons_of_mem reference hmem, hsel⟩

theorem selected_selectOne {reference : String} (hs : store.WellFormed)
    (he : selected.ExcerptOf store) (h : store.selectOne selected reference = .ok later) :
    Selected store selected [reference] later := by
  obtain ⟨space, path, hsel⟩ := exists_selection h
  rcases selectOne_eq_ok hs hsel h with ⟨hnone, rfl⟩ | ⟨v, old, root, hv, hwrite, rfl⟩
  -- A reference that leads to nothing selects nothing.
  · refine { selected_nil he with shows := fun other hmem => ?_, named := fun _ h => .inl h }
    obtain rfl := List.mem_singleton.1 hmem
    exact shows_of_selection hsel fun v hv => by simp [hnone] at hv
  · obtain ⟨root', hr', hl⟩ := Option.bind_eq_some_iff.1 hv
    have hwhole : store.root space = root' := by simp [Store.root, hr']
    have hpart : (selected.root space).ExcerptOf root' := hwhole ▸ he.root hs space
    obtain ⟨hlow, hhigh, w, hw, hagrees⟩ := write_excerptOf (hs space root' hr').2 hpart hl hwrite
    obtain ⟨hkept, hexcerpt⟩ := excerptOf_setRoot he hr' hlow hhigh
    refine ⟨hkept, hexcerpt, fun other hmem => ?_, fun other hsome => ?_⟩
    · obtain rfl := List.mem_singleton.1 hmem
      refine shows_of_selection hsel fun v' hv' => ⟨w, by simp [get?_eq_read?, hw], ?_⟩
      obtain rfl : v = v' := Option.some.inj (hv.symm.trans hv')
      exact hagrees
    · by_cases hne : other = space
      · subst hne
        exact .inr ⟨reference, List.mem_cons_self, path, hsel⟩
      · rw [root?_setRoot_of_ne selected root hne] at hsome
        exact .inl hsome

theorem selectAll_cons_eq_ok {final : Store} {reference : String} {references : List String} :
    store.selectAll selected (reference :: references) = .ok final ↔
      ∃ later, store.selectOne selected reference = .ok later ∧
        store.selectAll later references = .ok final := by
  rw [selectAll]
  cases store.selectOne selected reference <;> simp

theorem selected_selectAll {references : List String} (hs : store.WellFormed)
    (he : selected.ExcerptOf store) (h : store.selectAll selected references = .ok later) :
    Selected store selected references later := by
  induction references generalizing selected with
  | nil =>
    obtain rfl := Except.ok.inj h
    exact selected_nil he
  | cons reference rest ih =>
    obtain ⟨next, hnext, hrest⟩ := selectAll_cons_eq_ok.1 h
    have hone := selected_selectOne hs he hnext
    exact hone.cons (ih hone.excerpt hrest)

/-! ## Documents -/

theorem select_eq_ok {references : List String} {document : Value} :
    store.select references = .ok document ↔
      ∃ selected, store.selectAll empty references = .ok selected ∧ selected.toValue = document :=
  Outcome.map_eq_ok

theorem keyword_inj {space other : Namespace} (h : space.keyword = other.keyword) :
    space = other := by
  have hparsed : Namespace.ofKeyword? space.keyword = Namespace.ofKeyword? other.keyword :=
    congrArg _ h
  simpa using hparsed

theorem get?_roots (store : Store) (spaces : List Namespace) (space : Namespace) :
    Fields.get? (spaces.filterMap fun other =>
      (store.root? other).map fun root => (other.keyword, root)) space.keyword =
      if space ∈ spaces then store.root? space else none := by
  induction spaces with
  | nil => rfl
  | cons other rest ih =>
    by_cases hk : other = space
    · subst hk
      cases hr : store.root? other with
      | none => simp [hr, ih]
      | some root => simp [hr, Fields.get?]
    · have hkeyword : other.keyword ≠ space.keyword := fun h => hk (keyword_inj h)
      cases hr : store.root? other with
      | none => simp [hr, ih, Ne.symm hk]
      | some root => simp [hr, ih, Fields.get?, hkeyword, Ne.symm hk]

/-- A document is read below the keyword of a namespace as the state is read in the namespace. -/
theorem lookup_toValue (store : Store) (space : Namespace) (path : Path) :
    store.toValue.lookup (.key space.keyword :: path) = store.read? space path := by
  rw [toValue, Value.lookup, child?, get?_roots, if_pos (Namespace.mem_all space), Store.read?]

theorem mem_keys_toValue {name : String} (h : name ∈ store.toValue.keys) :
    ∃ space : Namespace, (store.root? space).isSome = true ∧ name = space.keyword := by
  obtain ⟨entry, hentry, rfl⟩ := List.mem_map.1 h
  obtain ⟨space, _, hspace⟩ := List.mem_filterMap.1 hentry
  obtain ⟨root, hr, rfl⟩ := Option.map_eq_some_iff.1 hspace
  exact ⟨space, by rw [hr]; rfl, rfl⟩

/-- A selection invents nothing: its document is an object that is named for namespaces that the
references name, and each value of it that is neither null nor a container is the very one that the
state holds at the same place. -/
theorem select_invents_nothing {references : List String} {document : Value}
    (h : Reachable store) (hs : store.select references = .ok document) :
    (∃ fields, document = .object fields ∧ ∀ name ∈ Fields.names fields,
      ∃ reference ∈ references, ∃ space path,
        selection reference = .ok (space, path) ∧ name = space.keyword) ∧
    ∀ space path v, document.lookup (.key space.keyword :: path) = some v → v.isLeaf = true →
      store.read? space path = some v := by
  obtain ⟨selected, hall, rfl⟩ := select_eq_ok.1 hs
  have hselected := selected_selectAll h.wellFormed (excerptOf_empty store) hall
  refine ⟨⟨_, rfl, fun name hname => ?_⟩, fun space path v hv hleaf => ?_⟩
  · obtain ⟨space, hsome, rfl⟩ := mem_keys_toValue hname
    rcases hselected.named space hsome with hempty | ⟨reference, hmem, path, hsel⟩
    -- The selection has started without any namespace.
    · cases space <;> cases hempty
    · exact ⟨reference, hmem, space, path, hsel, rfl⟩
  · rw [lookup_toValue] at hv
    obtain ⟨w, hw, hex⟩ := hselected.excerpt.read? hv
    rw [hw, hex.standsFor.eq_of_isLeaf hleaf]

/-- An item of a list and a field of another one are copied to the places where they were, and the
whole item is merged into its field. -/
theorem select_invents_nothing_items :
    let store := ofInputs
      [("pair", .array [.object [("x", .int 1), ("y", .int 2)], .int 5]), ("owner", .string "0xff")]
    let references := ["$inputs.pair[0].y", "inputs.pair.0", "$outputs.pair", "$inputs.pair[1]"]
    let document := Value.object [("inputs", .object
      [("pair", .array [.object [("y", .int 2), ("x", .int 1)], .int 5])])]
    let place : Path := [.key "pair", .index 0, .key "x"]
    store.select references = .ok document ∧
      document.lookup (.key Namespace.inputs.keyword :: place) = some (.int 1) ∧
      store.read? .inputs place = some (.int 1) := by
  intro store references document place
  have hreachable : Reachable store := by
    refine .ofInputs ⟨by decide, ⟨⟨⟨by decide, trivial, trivial, trivial⟩, trivial, trivial⟩, ?_⟩⟩
    exact ⟨trivial, trivial⟩
  have hselect : store.select references = .ok document :=
    Outcome.toOption_eq_some.1 (by decide +kernel)
  have hread : document.lookup (.key Namespace.inputs.keyword :: place) = some (.int 1) := by decide +kernel
  exact ⟨hselect, hread, (select_invents_nothing hreachable hselect).2 .inputs place _ hread rfl⟩

end Playbook.Store
