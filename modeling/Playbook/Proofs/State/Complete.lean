import Playbook.Proofs.Path.Collect
import Playbook.Proofs.State.Select

/-!
# Complete selections

Which lists of references can be selected from a state. A selection writes what it finds into a part
that starts empty, so it fails at an index that is too great for an empty list, and at an index
where a reference before it went by a key. The main statement: these are the only obstacles, and a
selection that succeeds is complete.
-/

namespace Playbook.Store

open Value

variable {store selected later : Store} {references : List String} {space : Namespace}

/-- A reference leads to this place of the namespace, and the state holds something there. -/
def Addresses (store : Store) (references : List String) (space : Namespace) (place : Path) : Prop :=
  ∃ reference ∈ references, ∃ path, selection reference = .ok (space, path) ∧
    Path.parse path = place ∧ (store.get? space path).isSome = true

/-- The places that references lead to can be collected in any order: every index among them can be
written into an empty list, and no list is entered by a key and by an index. -/
structure Compatible (store : Store) (references : List String) : Prop where
  near : ∀ space place, store.Addresses references space place → Near place
  apart : ∀ space p q, store.Addresses references space p → store.Addresses references space q →
    ¬ Clash p q

/-- Whatever the state holds at the place of a reference is read at the same place of the document.
-/
def Complete (store : Store) (references : List String) (document : Value) : Prop :=
  ∀ reference ∈ references, ∀ space path v, selection reference = .ok (space, path) →
    store.get? space path = some v →
    ∃ w, document.lookup (.key space.keyword :: Path.parse path) = some w ∧ w.Agrees v

/-! ## Selections that succeed -/

/-- What was selected was collected by writes at places that the references lead to. -/
def Gathered (store : Store) (references : List String) (selected : Store) : Prop :=
  ∀ space, Collected (store.Addresses references space) (selected.root space) (store.root space)

theorem gathered_empty (hs : store.WellFormed) : store.Gathered references empty := by
  intro space
  have hroot : empty.root space = .object [] := by cases space <;> rfl
  obtain ⟨fields, hfields⟩ := hs.fields space
  rw [hroot, hfields]
  exact .fields (fun h => nomatch h) fun key child child' hc => nomatch hc

theorem exists_selectOne {reference : String} (hs : store.WellFormed)
    (hc : store.Compatible references) (hmem : reference ∈ references)
    (hsel : ∃ place, selection reference = .ok place) (he : selected.ExcerptOf store)
    (hg : store.Gathered references selected) :
    ∃ later, store.selectOne selected reference = .ok later ∧ store.Gathered references later := by
  obtain ⟨⟨space, path⟩, hsel⟩ := hsel
  cases hv : store.get? space path with
  | none => exact ⟨selected, selectOne_of_get?_eq_none hsel hv, hg⟩
  | some v =>
    -- The reference leads to a value, so that its place is one that the references are compatible
    -- at.
    have haddresses : store.Addresses references space (Path.parse path) :=
      ⟨reference, hmem, path, hsel, rfl, by rw [hv]; rfl⟩
    obtain ⟨old, root, hwrite, hcollected⟩ :=
      exists_write_of_collected (hs.root space).2 (hg space) (he.root hs space) (lookup_root hv)
        (hc.near space _ haddresses) fun other hother =>
          ⟨hc.apart space _ _ hother haddresses, hc.apart space _ _ haddresses hother⟩
    refine ⟨selected.setRoot space root, by rw [selectOne_of_get? hs hsel hv hwrite]; rfl, ?_⟩
    intro other
    by_cases hne : other = space
    · subst hne
      rw [root_setRoot_same]
      -- The place that was written is among those that the references lead to.
      refine hcollected.mono fun place hplace => ?_
      rcases hplace with hplace | rfl
      · exact hplace
      · exact haddresses
    · rw [root_setRoot_of_ne selected root hne]
      exact hg other

theorem exists_selectAll {chosen : List String} (hs : store.WellFormed)
    (hc : store.Compatible references) (hk : ∀ reference ∈ references, ∃ place,
      selection reference = .ok place) (hchosen : chosen ⊆ references)
    (he : selected.ExcerptOf store) (hg : store.Gathered references selected) :
    ∃ later, store.selectAll selected chosen = .ok later := by
  induction chosen generalizing selected with
  | nil => exact ⟨selected, rfl⟩
  | cons reference rest ih =>
    have hmem : reference ∈ references := hchosen List.mem_cons_self
    obtain ⟨next, hnext, hgathered⟩ := exists_selectOne hs hc hmem (hk reference hmem) he hg
    have hexcerpt := (selected_selectOne hs he hnext).excerpt
    have hrest : rest ⊆ references := fun _ h => hchosen (List.mem_cons_of_mem reference h)
    obtain ⟨final, hfinal⟩ := ih hrest hexcerpt hgathered
    exact ⟨final, selectAll_cons_eq_ok.2 ⟨next, hnext, hfinal⟩⟩

/-! ## Selections that fail -/

/-- A reference that leads to a value is selected by a write. -/
theorem write_of_selectOne {reference path : String} (hs : store.WellFormed)
    (hsel : selection reference = .ok (space, path))
    (hsome : (store.get? space path).isSome = true)
    (h : store.selectOne selected reference = .ok later) :
    ∃ f old root, (selected.root space).write f (Path.parse path) = (.ok old, root) ∧
      later = selected.setRoot space root := by
  rcases selectOne_eq_ok hs hsel h with ⟨hnone, _⟩ | ⟨v, old, root, _, hwrite, rfl⟩
  · simp [hnone] at hsome
  · exact ⟨_, old, root, hwrite, rfl⟩

theorem isBlank_empty (space : Namespace) : (empty.root space).IsBlank := by
  cases space <;> exact .inr rfl

/-- Where single references can be selected, their indices are small. -/
theorem near_of_select {reference path : String} {document : Value} (hs : store.WellFormed)
    (hsel : selection reference = .ok (space, path))
    (hsome : (store.get? space path).isSome = true)
    (h : store.select [reference] = .ok document) : Near (Path.parse path) := by
  obtain ⟨selected, hall, _⟩ := select_eq_ok.1 h
  obtain ⟨first, hfirst, _⟩ := selectAll_cons_eq_ok.1 hall
  obtain ⟨f, old, root, hwrite, _⟩ := write_of_selectOne hs hsel hsome hfirst
  -- Into an empty namespace an index beyond the padding cannot be written.
  refine Classical.byContradiction fun hnear => ?_
  obtain ⟨e, he⟩ := write_error_of_not_near (f := f) (isBlank_empty space) hnear
  rw [hwrite] at he
  cases he

/-- Where pairs of references can be selected, no index of the second meets a key of the first. -/
theorem not_clash_of_select {first second p q : String} {document : Value} (hs : store.WellFormed)
    (hfirst : selection first = .ok (space, p)) (hsecond : selection second = .ok (space, q))
    (hp : (store.get? space p).isSome = true) (hq : (store.get? space q).isSome = true)
    (h : store.select [first, second] = .ok document) :
    ¬ Clash (Path.parse p) (Path.parse q) := by
  intro hclash
  obtain ⟨selected, hall, _⟩ := select_eq_ok.1 h
  obtain ⟨middle, hmiddle, hrest⟩ := selectAll_cons_eq_ok.1 hall
  obtain ⟨last, hlast, _⟩ := selectAll_cons_eq_ok.1 hrest
  obtain ⟨f, old, root, hwrite, rfl⟩ := write_of_selectOne hs hfirst hp hmiddle
  obtain ⟨g, old', root', hwrite', _⟩ := write_of_selectOne hs hsecond hq hlast
  obtain ⟨e, he⟩ := write_error_of_clash (g := g) (isBlank_empty space) hclash hwrite
  rw [root_setRoot_same] at hwrite'
  rw [hwrite'] at he
  cases he

/-! ## Complete selections -/

theorem complete_of_select {document : Value} (hs : store.WellFormed)
    (h : store.select references = .ok document) : store.Complete references document := by
  obtain ⟨selected, hall, rfl⟩ := select_eq_ok.1 h
  have hselected := selected_selectAll hs (excerptOf_empty store) hall
  intro reference hmem space path v hsel hv
  rw [lookup_toValue]
  exact hselected.shows reference hmem space path v hsel hv

/-- A complete document is read as the state is where a reference leads to a value without children.
-/
theorem Complete.lookup_eq {document : Value} {reference path : String} {v : Value}
    (h : store.Complete references document) (hmem : reference ∈ references)
    (hsel : selection reference = .ok (space, path)) (hv : store.get? space path = some v)
    (hc : ¬ v.IsContainer) :
    document.lookup (.key space.keyword :: Path.parse path) = some v := by
  obtain ⟨w, hw, hagrees⟩ := h reference hmem space path v hsel hv
  rw [hw, hagrees.eq (fun ha => hc (.inr ha)) fun ho => hc (.inl ho)]

/-- A selection that succeeds is complete. All selections from references whose keywords name
namespaces succeed, whatever references are chosen and in whatever order, exactly when the
references are compatible. -/
theorem select_complete_iff (h : Reachable store)
    (hk : ∀ reference ∈ references, ∃ place, selection reference = .ok place) :
    (∀ document, store.select references = .ok document → store.Complete references document) ∧
    ((∀ chosen, chosen ⊆ references → ∃ document,
      store.select chosen = .ok document ∧ store.Complete chosen document) ↔
    store.Compatible references) := by
  have hs := h.wellFormed
  refine ⟨fun document => complete_of_select hs, fun hall => ⟨?_, ?_⟩, fun hc chosen hchosen => ?_⟩
  · rintro space _ ⟨reference, hmem, path, hsel, rfl, hsome⟩
    -- Each reference alone is selected.
    obtain ⟨document, hselect, _⟩ := hall [reference] (List.cons_subset.2 ⟨hmem, List.nil_subset _⟩)
    exact near_of_select hs hsel hsome hselect
  · rintro space _ _ ⟨first, hfirst, p, hselp, rfl, hp⟩ ⟨second, hsecond, q, hselq, rfl, hq⟩
    -- Each two references are selected in this order.
    obtain ⟨document, hselect, _⟩ := hall [first, second]
      (List.cons_subset.2 ⟨hfirst, List.cons_subset.2 ⟨hsecond, List.nil_subset _⟩⟩)
    exact not_clash_of_select hs hselp hselq hp hq hselect
  · obtain ⟨selected, hselected⟩ :=
      exists_selectAll hs hc hk hchosen (excerptOf_empty store) (gathered_empty hs)
    have hselect : store.select chosen = .ok selected.toValue :=
      select_eq_ok.2 ⟨selected, hselected, rfl⟩
    exact ⟨_, hselect, complete_of_select hs hselect⟩

/-- Two items of a list, entered by their indices, are selected in either order. -/
theorem select_complete_items :
    let store := ofInputs [("pair", .array [.string "a", .object [("x", .int 1)]])]
    let references := ["$inputs.pair[1].x", "inputs.pair[0]", "$outputs.pair"]
    store.Compatible references ∧ ∀ chosen, chosen ⊆ references → ∃ document,
      store.select chosen = .ok document ∧ store.Complete chosen document := by
  intro store references
  have hreachable : Reachable store :=
    .ofInputs ⟨by decide, ⟨trivial, ⟨by decide, trivial, trivial⟩, trivial⟩, trivial⟩
  have hitem : selection "$inputs.pair[1].x" = .ok (.inputs, "pair[1].x") :=
    Outcome.toOption_eq_some.1 (by decide +kernel)
  have hfirst : selection "inputs.pair[0]" = .ok (.inputs, "pair[0]") :=
    Outcome.toOption_eq_some.1 (by decide +kernel)
  have habsent : selection "$outputs.pair" = .ok (.outputs, "pair") :=
    Outcome.toOption_eq_some.1 (by decide +kernel)
  have hk : ∀ reference ∈ references, ∃ place, selection reference = .ok place := by
    simp [references, hitem, hfirst, habsent]
  -- The third reference leads to nothing, so that two places are left.
  have hplaces : ∀ space place, store.Addresses references space place →
      place = [.key "pair", .index 1, .key "x"] ∨ place = [.key "pair", .index 0] := by
    rintro space _ ⟨reference, hmem, path, hsel, rfl, hsome⟩
    rcases List.mem_cons.1 hmem with rfl | hmem
    · obtain ⟨rfl, rfl⟩ := Prod.mk.inj (Except.ok.inj (hitem.symm.trans hsel))
      exact .inl (by decide +kernel)
    rcases List.mem_cons.1 hmem with rfl | hmem
    · obtain ⟨rfl, rfl⟩ := Prod.mk.inj (Except.ok.inj (hfirst.symm.trans hsel))
      exact .inr (by decide +kernel)
    · obtain rfl := List.mem_singleton.1 hmem
      obtain ⟨rfl, rfl⟩ := Prod.mk.inj (Except.ok.inj (habsent.symm.trans hsel))
      cases hsome
  have hcompatible : store.Compatible references := by
    constructor
    · intro space place hplace
      rcases hplaces space place hplace with rfl | rfl <;> simp [Near, maxPadding]
    · intro space p q hp hq hclash
      rcases hplaces space p hp with rfl | rfl <;> rcases hplaces space q hq with rfl | rfl <;>
        rcases hclash with _ | hclash <;> rcases hclash with _ | hclash <;> nomatch hclash
  exact ⟨hcompatible, (select_complete_iff hreachable hk).2.2 hcompatible⟩

/-- An item that is selected by a key and then by its index, which both lead to it in the state,
makes the selection fail: the key has made an object in place of the list. -/
theorem select_error_item_key :
    let store : Store := { empty with outputs := some (.object [("holders", .array [.string "0x1"])]) }
    let references := ["$outputs.holders.0", "$outputs.holders[0]"]
    Reachable store ∧
      (∀ reference ∈ references, ∃ place, selection reference = .ok place) ∧
      (∀ reference ∈ references, ∀ space path, selection reference = .ok (space, path) →
        store.get? space path = some (.string "0x1")) ∧
      store.select references = .error (.resolution (.slot "holders[0]" (.indexIntoObject 0))) := by
  intro store references
  let document : Value := .object [("outputs", .object [("holders", .array [.string "0x1"])])]
  have hdocument : document.WellFormed :=
    ⟨by decide, ⟨by decide, ⟨trivial, trivial⟩, trivial⟩, trivial⟩
  have hload : ofValue document = .ok store := rfl
  have hkey : selection "$outputs.holders.0" = .ok (.outputs, "holders.0") :=
    Outcome.toOption_eq_some.1 (by decide +kernel)
  have hindex : selection "$outputs.holders[0]" = .ok (.outputs, "holders[0]") :=
    Outcome.toOption_eq_some.1 (by decide +kernel)
  refine ⟨.ofValue hdocument hload, by simp [references, hkey, hindex], ?_, ?_⟩
  · intro reference hmem space path hsel
    rcases List.mem_cons.1 hmem with rfl | hmem
    · obtain ⟨rfl, rfl⟩ := Prod.mk.inj (Except.ok.inj (hkey.symm.trans hsel))
      decide +kernel
    · obtain rfl := List.mem_singleton.1 hmem
      obtain ⟨rfl, rfl⟩ := Prod.mk.inj (Except.ok.inj (hindex.symm.trans hsel))
      decide +kernel
  · exact Outcome.error?_eq_some.1 (by decide +kernel)

end Playbook.Store
